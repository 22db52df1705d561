/-
The builder of the saved tree and the search for the folder of one dependency.

Trees are the `node_modules` folders.  The way up from a folder is given as the list of
the folders above it, and the tables of a builder are functions.
-/

import Bun.Foundation.Forest
import Bun.Install.Lockfile

set_option autoImplicit false

namespace Bun.Install

open Bun.Foundation

abbrev Id := Nat

/-- One folder: the dependency whose package owns it (`none` is `ROOT_DEP_ID`) and its rows. -/
structure BuilderEntry where
  dependencyId : Option DependencyID
  dependencies : List DependencyID
deriving DecidableEq, Repr

structure FillItem where
  treeId : Id
  dependencyId : DependencyID
  hoistRootId : Option Id
deriving DecidableEq, Repr

inductive HoistDependencyResult where
  | dependencyLoop
  | hoisted
  | resolve (id : PackageID)
  | resolveReplace (id : Id) (depId : DependencyID)
  | resolveLater
  /-- `hoisted`, plus the optional peer's slot now points at the version it deduplicated onto. -/
  | rebind (id : PackageID)
  /-- Like `hoisted`, but the required peer was deduplicated onto this package instead of the one
  it resolves to. -/
  | served (id : PackageID)
  | placement (id : Id) (bundled : Bool)
deriving DecidableEq, Repr

inductive OwnerCopy where
  | none
  /-- The owner has the same peer dependency, so it uses the first copy above it. -/
  | firstAbove
  /-- The owner depends on this copy. -/
  | package (id : PackageID)
deriving DecidableEq, Repr

structure PeerProbe where
  peerDepId : DependencyID
  provided : Bool
  ownerCopy : OwnerCopy
deriving DecidableEq, Repr

/-- The peers of the package that is being hoisted, and two sets of packages that are computed
once: those with peers, and those that a regular dependency resolves to. -/
structure PeerProbes where
  probes : List PeerProbe
  withPeers : Option (List PackageID)
  regularTargets : Option (List PackageID)
deriving DecidableEq, Repr

structure Builder where
  list : Forest BuilderEntry
  resolutions : List (Option PackageID)
  queue : List FillItem
  /-- The first row of each name in each tree. -/
  placed : Id → PackageNameHash → Option DependencyID
  pendingPeers : List (PackageNameHash × List DependencyID)
  lateBoundPeer : Bool
  bundlePlaced : Bool
  walked : List PackageID
  served : List (DependencyID × PackageID)
  peerProbes : PeerProbes
  /-- The names that were reported as invalid. -/
  log : List (List UInt8)

namespace Builder

def resolution (builder : Builder) (depId : DependencyID) : Option PackageID :=
  (builder.resolutions[depId]?).join

def rows (builder : Builder) (id : Id) : List DependencyID :=
  ((builder.list.value id).map BuilderEntry.dependencies).getD []

def folderOf (builder : Builder) (id : Id) : Option DependencyID :=
  (builder.list.value id).bind BuilderEntry.dependencyId

def setResolution (builder : Builder) (depId : DependencyID) (id : PackageID) : Builder :=
  { builder with resolutions := builder.resolutions.set depId (some id) }

end Builder

/-! ### Peers of a package on its way up -/

namespace PeerProbes

def isProbed (peer : Dependency) : Bool :=
  peer.behavior.isPeer && peer.versionTag == .npm

def packagesWithPeers (lockfile : Lockfile) : List PackageID :=
  (List.range lockfile.packages.length).filter fun id =>
    (lockfile.resolutionList id).ids.any fun depId => isProbed (lockfile.dependency depId)

def ownerCopyOf (lockfile : Lockfile) (resolution : DependencyID → Option PackageID)
    (ownerDeps : DependencyIDSlice) (peer : Dependency) : Option PackageID :=
  (ownerDeps.ids.find? fun depId =>
    (lockfile.dependency depId).nameHash == peer.nameHash &&
      !(lockfile.dependency depId).behavior.isPeer && (resolution depId).isSome).bind resolution

/-- The entry of one peer, unless a dependency of the package itself or of its owner leaves
nothing to check. -/
def probeOf (lockfile : Lockfile) (resolution : DependencyID → Option PackageID)
    (ownerDeps pkgDeps : DependencyIDSlice) (isForPeer : Bool) (peerDepId : DependencyID) :
    Option PeerProbe :=
  let peer := lockfile.dependency peerDepId
  if !isProbed peer then none
  else if pkgDeps.ids.any fun depId =>
      (lockfile.dependency depId).nameHash == peer.nameHash &&
        !(lockfile.dependency depId).behavior.isPeer then
    none
  else
    let ownerCopy := ownerCopyOf lockfile resolution ownerDeps peer
    let isListed :=
      match ownerCopy with
      | some id => lockfile.rules.satisfies id peerDepId
      | none => !peer.behavior.isOptionalPeer
    let hasSamePeer := ownerDeps.ids.any fun depId =>
      (lockfile.dependency depId).nameHash == peer.nameHash &&
        !(lockfile.dependency depId).behavior.isOptionalPeer
    let usedByOwner :=
      if isForPeer then OwnerCopy.none
      else
        match ownerCopy with
        | some copy => OwnerCopy.package copy
        | none => if hasSamePeer then OwnerCopy.firstAbove else OwnerCopy.none
    if isListed then
      some { peerDepId := peerDepId, provided := ownerCopy.isSome, ownerCopy := usedByOwner }
    else none

/-- `packageId` is about to be hoisted out of the package with `ownerDeps`. -/
def begin (self : PeerProbes) (lockfile : Lockfile)
    (resolution : DependencyID → Option PackageID) (ownerDeps : DependencyIDSlice)
    (packageId : Option PackageID) (isForPeer : Bool) : PeerProbes :=
  match packageId with
  | none => { self with probes := [] }
  | some id =>
      let withPeers := self.withPeers.getD (packagesWithPeers lockfile)
      let cleared := { self with probes := [], withPeers := some withPeers }
      if id ∉ withPeers then cleared
      else if lockfile.resolutionTag id = .workspace ∨ lockfile.resolutionTag id = .symlink then
        cleared
      else
        let pkgDeps := lockfile.resolutionList id
        { cleared with
          probes :=
            pkgDeps.ids.filterMap (probeOf lockfile resolution ownerDeps pkgDeps isForPeer) }

def regularTargetsOf (lockfile : Lockfile) (resolution : DependencyID → Option PackageID) :
    List PackageID :=
  (List.range lockfile.dependencies.length).filterMap fun depId =>
    if (lockfile.dependency depId).behavior.isPeer then none else resolution depId

/-- The probes that are left to check, with the last one in the place of the first. -/
def swapRemove : List PeerProbe → List PeerProbe
  | [] => []
  | _ :: rest =>
      match rest.getLast? with
      | none => []
      | some last => last :: rest.dropLast

/-- The loop over the probes: those already checked and those to check. -/
def hiddenFrom (lockfile : Lockfile) (builder : Builder) (treeId : Id) :
    Nat → List PeerProbe → List PeerProbe → Option (List PackageID) → Bool × PeerProbes
  | 0, checked, toCheck, targets =>
      (false,
        { probes := checked ++ toCheck, withPeers := builder.peerProbes.withPeers,
          regularTargets := targets })
  | fuel + 1, checked, toCheck, targets =>
      let stop (hidden : Bool) (probes : List PeerProbe) (targets : Option (List PackageID)) :=
        (hidden,
          ({ probes := probes, withPeers := builder.peerProbes.withPeers,
             regularTargets := targets } : PeerProbes))
      match toCheck with
      | [] => stop false checked targets
      | probe :: rest =>
          let peer := lockfile.dependency probe.peerDepId
          match (builder.placed treeId peer.nameHash).bind builder.resolution with
          | none => hiddenFrom lockfile builder treeId fuel (checked ++ [probe]) rest targets
          | some held =>
              let isOptional := peer.behavior.isOptionalPeer
              if lockfile.rules.satisfies held probe.peerDepId then
                let provided := probe.provided || !isOptional
                let kept (copy : OwnerCopy) : PeerProbe :=
                  { probe with provided := provided, ownerCopy := copy }
                match probe.ownerCopy with
                | .package copy =>
                    if copy ≠ held then
                      let regular := targets.getD (regularTargetsOf lockfile builder.resolution)
                      if held ∉ regular then stop true (checked ++ toCheck) (some regular)
                      else
                        hiddenFrom lockfile builder treeId fuel (checked ++ [kept .none]) rest
                          (some regular)
                    else
                      hiddenFrom lockfile builder treeId fuel
                        (checked ++ [kept (.package copy)]) rest targets
                | .firstAbove =>
                    hiddenFrom lockfile builder treeId fuel (checked ++ [kept (.package held)])
                      rest targets
                | .none =>
                    hiddenFrom lockfile builder treeId fuel (checked ++ [kept .none]) rest targets
              else if probe.provided && !isOptional then stop true (checked ++ toCheck) targets
              else hiddenFrom lockfile builder treeId fuel checked (swapRemove toCheck) targets

/-- Whether the package must not be hoisted into a tree, because it would stop loading the copy
of a peer that it loads now. -/
def isHiddenBy (self : PeerProbes) (lockfile : Lockfile) (builder : Builder) (treeId : Id) :
    Bool × PeerProbes :=
  hiddenFrom lockfile { builder with peerProbes := self } treeId self.probes.length [] self.probes
    self.regularTargets

end PeerProbes

/-! ### One dependency -/

section HoistDependency

variable (lockfile : Lockfile) (builder : Builder) (packageId : Option PackageID)
variable (inputDepId : DependencyID) (inputDepRange : DependencyIDSlice)

/-- Every platform installs such a dependency, unless an option like `--omit` skips it. -/
def isAlwaysLinked (row : Dependency) : Bool :=
  !row.behavior.isOptional && !row.behavior.isBundled

def hoistOntoOwnRow (this : Id) (depId : DependencyID) (resId : PackageID) :
    HoistDependencyResult :=
  let dependency := lockfile.dependency inputDepId
  let dep := lockfile.dependency depId
  let earlierGroup := (List.range' inputDepRange.off (inputDepId - inputDepRange.off)).any
    fun earlier =>
      (lockfile.dependency earlier).nameHash == dependency.nameHash &&
        !(lockfile.dependency earlier).behavior.isWorkspace &&
        !(lockfile.dependency earlier).behavior.isPeer &&
        builder.resolution earlier == some resId
  if dep.behavior.isWorkspace && !earlierGroup then .resolveReplace this depId
  else if dependency.behavior.isPeer && !dependency.behavior.isOptionalPeer &&
      isAlwaysLinked dep && lockfile.rules.satisfiesNpmRange resId inputDepId then
    .served resId
  else .hoisted

def hoistPeer (depId : DependencyID) (resId package : PackageID) : HoistDependencyResult :=
  let dependency := lockfile.dependency inputDepId
  let dep := lockfile.dependency depId
  let dedupe : HoistDependencyResult :=
    if dependency.behavior.isOptionalPeer then .rebind resId else .hoisted
  let isRootDependency := lockfile.rules.isWorkspaceRootDependency depId
  let ownDependencySharesIt := !dependency.behavior.isOptionalPeer &&
    inputDepRange.ids.any fun own =>
      (lockfile.dependency own).nameHash == dependency.nameHash &&
        !(lockfile.dependency own).behavior.isPeer && isAlwaysLinked (lockfile.dependency own) &&
        builder.resolution own == some resId
  if lockfile.packageNameHash resId ≠ lockfile.packageNameHash package ∧
      lockfile.rules.isOverriddenDependency inputDepId = true then
    .dependencyLoop
  else if lockfile.rules.satisfiesNpmRange resId inputDepId then
    if !dependency.behavior.isOptionalPeer &&
        ((isRootDependency && isAlwaysLinked dep) || ownDependencySharesIt) then
      .served resId
    else dedupe
  else if isRootDependency then dedupe
  else .dependencyLoop

def hoistOntoRow (this : Id) (depId : DependencyID) : HoistDependencyResult :=
  match builder.resolution depId, packageId with
  | none, package =>
      if (lockfile.dependency depId).behavior.isBundled then .dependencyLoop
      else if package = none then .resolveLater
      else .resolveReplace this depId
  | some resId, none => .resolve resId
  | some resId, some package =>
      if resId = package then .hoisted
      else if inputDepRange.contains depId then
        hoistOntoOwnRow lockfile builder inputDepId inputDepRange this depId resId
      else if (lockfile.dependency inputDepId).behavior.isPeer then
        hoistPeer lockfile builder inputDepId inputDepRange depId resId package
      else .dependencyLoop

def resolvesElsewhere (nameHash : PackageNameHash) (package : PackageID) (owner : PackageID) :
    Bool :=
  (lockfile.resolutionList owner).ids.any fun depId =>
    (lockfile.dependency depId).nameHash == nameHash &&
      !(lockfile.dependency depId).behavior.isBundled &&
      ((lockfile.rules.peerByVersion depId).or (builder.resolution depId) != some package)

/-- The packages of the owner's regular dependencies that are placed in its own folder. -/
def nestedIn (treeId : Id) (owner : PackageID) : List PackageID :=
  ((builder.rows treeId).filter fun depId =>
    (lockfile.resolutionList owner).contains depId &&
      !(lockfile.dependency depId).behavior.isBundled).filterMap builder.resolution

/-- The trees behind the hoist root: the nested packages' own trees contain more of them. -/
def nestedResolvesElsewhere (nameHash : PackageNameHash) (package : PackageID) :
    List Id → List (Id × PackageID) → Bool
  | [], _ => false
  | id :: rest, scope =>
      match builder.list.parent id, builder.folderOf id with
      | some parent, some folder =>
          match scope.find? (fun entry => entry.1 == parent) with
          | none => nestedResolvesElsewhere nameHash package rest scope
          | some (_, parentOwner) =>
              if !(lockfile.resolutionList parentOwner).contains folder ||
                  (lockfile.dependency folder).behavior.isBundled then
                nestedResolvesElsewhere nameHash package rest scope
              else
                match builder.resolution folder with
                | none => nestedResolvesElsewhere nameHash package rest scope
                | some treeOwner =>
                    if (nestedIn lockfile builder id treeOwner).any
                        (resolvesElsewhere lockfile builder nameHash package) then
                      true
                    else
                      nestedResolvesElsewhere nameHash package rest (scope ++ [(id, treeOwner)])
      | _, _ => nestedResolvesElsewhere nameHash package rest scope

/-- Whether a dependency on the name that loading `bun.lock` would rebind to the hoist root
really resolves to a different package. -/
def hoistRootResolvesElsewhere (hoistRoot : Id) (nameHash : PackageNameHash) : Bool :=
  match packageId, builder.list.parent hoistRoot with
  | some package, some _ =>
      match (builder.folderOf hoistRoot).bind builder.resolution with
      | none => false
      | some owner =>
          let elsewhere := resolvesElsewhere lockfile builder nameHash package
          let nested := nestedIn lockfile builder hoistRoot owner
          elsewhere owner || nested.any elsewhere ||
            (!nested.isEmpty &&
              nestedResolvesElsewhere lockfile builder nameHash package
                (List.range' (hoistRoot + 1) (builder.list.size - (hoistRoot + 1)))
                [(hoistRoot, owner)])
  | _, _ => false

def placeHere (asDefined : Bool) (hoistRootId : Option Id) (this : Id) : HoistDependencyResult :=
  let nameHash := (lockfile.dependency inputDepId).nameHash
  if hoistRootId = some this then
    if !asDefined && hoistRootResolvesElsewhere lockfile builder packageId this nameHash then
      .dependencyLoop
    else
      match builder.folderOf this with
      | some folder =>
          if builder.resolution folder = packageId ∧
              (lockfile.dependency folder).nameHash = nameHash then
            .hoisted
          else .placement this false
      | none => .placement this false
  else .placement this false

/-- This function does one of three things: de-duplicate (skip) the package, move the package to
the top directory, or leave the package at the same (relative) directory. -/
def hoistDependency (hoistRootId : Option Id) :
    List Id → Id → Bool → PeerProbes → HoistDependencyResult × PeerProbes
  | above, this, asDefined, probes =>
      let checked :=
        if !asDefined && !probes.probes.isEmpty then probes.isHiddenBy lockfile builder this
        else (false, probes)
      if checked.1 then (.dependencyLoop, checked.2)
      else
        match builder.placed this (lockfile.dependency inputDepId).nameHash, above with
        | some depId, _ =>
            (hoistOntoRow lockfile builder packageId inputDepId inputDepRange this depId,
              checked.2)
        | none, parent :: rest =>
            -- This dependency was not found in this tree: try hoisting or placing in the parent.
            if hoistRootId ≠ some this then
              let begun :=
                if asDefined then
                  checked.2.begin lockfile builder.resolution inputDepRange packageId
                    (lockfile.dependency inputDepId).behavior.isPeer
                else checked.2
              let found := hoistDependency hoistRootId rest parent false begun
              if !asDefined || found.1 != .dependencyLoop then found
              else
                (placeHere lockfile builder packageId inputDepId asDefined hoistRootId this,
                  found.2)
            else
              (placeHere lockfile builder packageId inputDepId asDefined hoistRootId this,
                checked.2)
        | none, [] =>
            (placeHere lockfile builder packageId inputDepId asDefined hoistRootId this, checked.2)

end HoistDependency

end Bun.Install
