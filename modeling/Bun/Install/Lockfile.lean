/-
The parts of a lockfile that placing packages reads: the dependencies with their
names and behaviors, the packages with their slices of the dependency buffer, and the
checks of a name that becomes a folder of `node_modules`.
-/

import Bun.Core.AsciiText
import Mathlib.Data.List.Sort

set_option autoImplicit false

namespace Bun.Install

abbrev PackageID := Nat

abbrev DependencyID := Nat

/-- Names are compared by their hash everywhere in the lockfile. -/
abbrev PackageNameHash := UInt64

/-! ### Behaviors -/

structure Behavior where
  bits : UInt8
deriving DecidableEq, Repr

namespace Behavior

def PROD : UInt8 := 2
def OPTIONAL : UInt8 := 4
def DEV : UInt8 := 8
def PEER : UInt8 := 16
def WORKSPACE : UInt8 := 32
def BUNDLED : UInt8 := 64

def contains (self : Behavior) (flag : UInt8) : Bool :=
  (self.bits &&& flag) == flag

def isProd (self : Behavior) : Bool :=
  self.contains PROD

def isOptional (self : Behavior) : Bool :=
  self.contains OPTIONAL && !self.contains PEER

def isOptionalPeer (self : Behavior) : Bool :=
  self.contains OPTIONAL && self.contains PEER

def isDev (self : Behavior) : Bool :=
  self.contains DEV

def isPeer (self : Behavior) : Bool :=
  self.contains PEER

def isWorkspace (self : Behavior) : Bool :=
  self.contains WORKSPACE

def isBundled (self : Behavior) : Bool :=
  self.contains BUNDLED

/-- A flag that only one of the two has puts its owner first. -/
def first (left right : Bool) (otherwise : Ordering) : Ordering :=
  if left != right then (if left then .lt else .gt) else otherwise

def cmp (self rhs : Behavior) : Ordering :=
  if self = rhs then .eq
  else
    first self.isWorkspace rhs.isWorkspace <|
      first self.isDev rhs.isDev <|
        first self.isOptional rhs.isOptional <|
          first self.isProd rhs.isProd <|
            first self.isPeer rhs.isPeer .eq

end Behavior

/-! ### Dependencies and packages -/

inductive VersionTag where
  | uninitialized
  | npm
  | distTag
  | tarball
  | folder
  | symlink
  | workspace
  | git
  | github
  | catalog
deriving DecidableEq, Repr

structure Dependency where
  name : List UInt8
  nameHash : PackageNameHash
  behavior : Behavior
  versionTag : VersionTag
deriving DecidableEq, Repr

inductive ResolutionTag where
  | uninitialized
  | root
  | npm
  | folder
  | localTarball
  | github
  | git
  | symlink
  | workspace
  | remoteTarball
  | singleFileModule
deriving DecidableEq, Repr

structure DependencyIDSlice where
  off : Nat
  len : Nat
deriving DecidableEq, Repr

namespace DependencyIDSlice

/-- The ids from `begin` up to `end`. -/
def ids (slice : DependencyIDSlice) : List DependencyID :=
  List.range' slice.off slice.len

def contains (slice : DependencyIDSlice) (id : DependencyID) : Bool :=
  decide (slice.off ≤ id) && decide (id < slice.len + slice.off)

theorem contains_iff (slice : DependencyIDSlice) (id : DependencyID) :
    slice.contains id = true ↔ id ∈ slice.ids := by
  unfold contains ids
  rw [Bool.and_eq_true, decide_eq_true_iff, decide_eq_true_iff, List.mem_range'_1,
    Nat.add_comm slice.len]

end DependencyIDSlice

structure Package where
  nameHash : PackageNameHash
  resolutionTag : ResolutionTag
  resolutions : DependencyIDSlice
deriving DecidableEq, Repr

/-- What the version ranges, the catalogs and the overrides of a lockfile say about peers. -/
structure PeerRules where
  /-- `satisfies_dependency_version` of a package's resolution and a dependency's version. -/
  satisfies : PackageID → DependencyID → Bool
  /-- The same with the range that a catalog gives the dependency. -/
  satisfiesRange : PackageID → DependencyID → Bool
  /-- The same if both the range and the resolution are of npm. -/
  satisfiesNpmRange : PackageID → DependencyID → Bool
  /-- `resolve_peer_dep_version_based`. -/
  peerByVersion : DependencyID → Option PackageID
  isOverriddenDependency : DependencyID → Bool
  isWorkspaceRootDependency : DependencyID → Bool

structure Lockfile where
  dependencies : List Dependency
  packages : List Package
  /-- The package of each dependency; `none` is `invalid_package_id`. -/
  resolutions : List (Option PackageID)
  rules : PeerRules

namespace Lockfile

def dependency (lockfile : Lockfile) (id : DependencyID) : Dependency :=
  lockfile.dependencies.getD id
    { name := [], nameHash := 0, behavior := { bits := 0 }, versionTag := .uninitialized }

def resolutionList (lockfile : Lockfile) (id : PackageID) : DependencyIDSlice :=
  (lockfile.packages[id]?.map Package.resolutions).getD { off := 0, len := 0 }

def resolutionTag (lockfile : Lockfile) (id : PackageID) : ResolutionTag :=
  (lockfile.packages[id]?.map Package.resolutionTag).getD .uninitialized

def packageNameHash (lockfile : Lockfile) (id : PackageID) : PackageNameHash :=
  (lockfile.packages[id]?.map Package.nameHash).getD 0

def nameHash (lockfile : Lockfile) (id : DependencyID) : PackageNameHash :=
  (lockfile.dependency id).nameHash

end Lockfile

/-! ### The order of a package's dependencies -/

namespace DepSorter

def isLessThan (lockfile : Lockfile) (l r : DependencyID) : Bool :=
  match (lockfile.dependency l).behavior.cmp (lockfile.dependency r).behavior with
  | .lt => true
  | .gt => false
  | .eq => List.compareLex compare (lockfile.dependency l).name (lockfile.dependency r).name == .lt

end DepSorter

/-- The dependencies of a package in the order in which they are placed. -/
def sortedDependencies (lockfile : Lockfile) (slice : DependencyIDSlice) : List DependencyID :=
  slice.ids.insertionSort (fun a b => DepSorter.isLessThan lockfile b a = false)

theorem sortedDependencies_perm (lockfile : Lockfile) (slice : DependencyIDSlice) :
    (sortedDependencies lockfile slice).Perm slice.ids :=
  List.perm_insertionSort _ _

/-! ### Names of folders -/

def MAX_PATH_BYTES : Nat := 4096

def isAsciiControl (byte : UInt8) : Bool :=
  byte < 32 || byte == 127

def isSafeComponent (component : List UInt8) : Bool :=
  decide (component.length ≤ 255) && component != [] && component != ascii "." &&
    component != ascii ".."

/-- The pass over a name, with the part of its component that has been read. -/
def isSafeFolderNameFrom (component : List UInt8) : List UInt8 → Bool
  | [] => isSafeComponent component
  | byte :: rest =>
      if byte = 0x2F then isSafeComponent component && isSafeFolderNameFrom [] rest
      else if byte = 0x5C ∨ byte = 0x3A then false
      else if byte = 0xC2 ∧ (rest.head?.any fun next => 0x80 ≤ next && next ≤ 0x9F) = true then
        false
      else if isAsciiControl byte then false
      else isSafeFolderNameFrom (component ++ [byte]) rest

/-- An untrusted name or alias becomes a directory under `node_modules/`. -/
def isSafeInstallFolderName (name : List UInt8) : Bool :=
  if name = [] ∨ 255 + 1 + 255 < name.length then false
  else isSafeFolderNameFrom [] name

def nameIsSinglePathEntry (name : List UInt8) : Bool :=
  if MAX_PATH_BYTES ≤ name.length ∨ isSafeInstallFolderName name = false then false
  else
    match name.count 0x2F with
    | 0 => true
    | 1 => name.head? == some 0x40
    | _ => false

def toAsciiLower (byte : UInt8) : UInt8 :=
  if 0x41 ≤ byte ∧ byte ≤ 0x5A then byte + 32 else byte

def unscopedName (target : List UInt8) : Option (List UInt8) :=
  match target.dropWhile (· != 0x2F) with
  | _ :: name => if 1 < (target.takeWhile (· != 0x2F)).length then some name else none
  | [] => if target.head? != some 0x40 then some target else none

/-- `node_modules/<alias>` is deleted and made again: it is no directory the installer owns
there. -/
def aliasIsSafeInstallTarget (target : List UInt8) : Bool :=
  if nameIsSinglePathEntry target = false then false
  else
    match unscopedName target with
    | none => false
    | some name =>
        name.head? != some 0x2E && name.map toAsciiLower != ascii "node_modules"

example : aliasIsSafeInstallTarget (ascii "@scope/name") = true := by decide

example : aliasIsSafeInstallTarget (ascii "../name") = false := by decide

end Bun.Install
