/-
Whether two groups have a version in common, and whether one is within the other.

Both tests work on intervals: the strongest lower and upper bound of a chain of
comparators.
-/

import Bun.Semver.Range

set_option autoImplicit false

namespace Bun.Semver

structure Bound where
  version : Version
  inclusive : Bool
deriving DecidableEq, Repr

structure Interval where
  lower : Option Bound := none
  upper : Option Bound := none
deriving DecidableEq, Repr

def isLastPatch (version : Version) : Bool :=
  version.patch == u64Max && !version.tag.hasPre

/-- The version that follows `major.minor.MAX`, if there is one. -/
def afterLastPatch (version : Version) : Option Version :=
  match checkedAddOne version.minor with
  | some minor => some { major := version.major, minor }
  | none => (checkedAddOne version.major).map fun major => { major }

namespace Interval

def raises (b : Bound) (lower : Option Bound) : Bool :=
  match lower with
  | none => true
  | some cur =>
      match b.version.orderWithoutBuild cur.version with
      | .gt => true
      | .eq => !b.inclusive
      | .lt => false

def raise (interval : Interval) (b : Bound) : Interval :=
  if raises b interval.lower then { interval with lower := some b } else interval

def caps (b : Bound) (upper : Option Bound) : Bool :=
  match upper with
  | none => true
  | some cur =>
      match b.version.orderWithoutBuild cur.version with
      | .lt => true
      | .eq => !b.inclusive
      | .gt => false

def cap (interval : Interval) (b : Bound) : Interval :=
  if caps b interval.upper then { interval with upper := some b } else interval

def narrow (interval : Interval) (c : Comparator) : Interval :=
  let bound (inclusive : Bool) : Bound := { version := c.version, inclusive }
  match c.op with
  | .unset => interval
  | .eql => (interval.raise (bound true)).cap (bound true)
  | .gt => interval.raise (bound false)
  | .gte => interval.raise (bound true)
  | .lt => interval.cap (bound false)
  | .lte => interval.cap (bound true)

def andQuery (interval : Interval) (query : Query) : Interval :=
  query.ranges.foldl (fun i range => (i.narrow range.left).narrow range.right) interval

/-- `0.0.0-0` is the lowest version, so a missing lower bound starts there. -/
def isNonEmpty (interval : Interval) : Bool :=
  match interval.upper with
  | none => true
  | some u =>
      let l := interval.lower.getD { version := Comparator.nullSet.version, inclusive := true }
      match l.version.orderWithoutBuild u.version with
      | .lt => true
      | .eq => l.inclusive && u.inclusive
      | .gt => false

/-- `>1.MAX.MAX` as `>=2.0.0`. -/
def canonicalExclusive (lower : Option Bound) : Option Bound :=
  lower.map fun lower =>
    if !lower.inclusive && isLastPatch lower.version then
      match afterLastPatch lower.version with
      | some next => { version := next, inclusive := true }
      | none => lower
    else lower

/-- `>=0.0.0` as no bound. -/
def canonicalZero (lower : Option Bound) : Option Bound :=
  if lower.any fun it => it.inclusive && it.version.isZero && !it.version.tag.hasPre then none
  else lower

/-- `<=1.MAX.MAX` as `<2.0.0`. -/
def canonicalInclusive (upper : Option Bound) : Option Bound :=
  upper.bind fun upper =>
    if upper.inclusive && isLastPatch upper.version then
      (afterLastPatch upper.version).map fun version => { version, inclusive := false }
    else some upper

/-- `<2.0.0` as `<2.0.0-0`, unless the lower bound is a prerelease of `2.0.0`. -/
def canonicalRelease (lower upper : Option Bound) : Option Bound :=
  upper.map fun upper =>
    if !upper.inclusive && !upper.version.tag.hasPre &&
        !lower.any (fun lower => lower.version.tag.hasPre &&
          lower.version.major == upper.version.major &&
          lower.version.minor == upper.version.minor &&
          lower.version.patch == upper.version.patch) then
      { upper with version := { upper.version with tag := .zeroPre } }
    else upper

def canonical (interval : Interval) : Interval :=
  let lower := canonicalZero (canonicalExclusive interval.lower)
  { lower, upper := canonicalRelease lower (canonicalInclusive interval.upper) }

def isWithinLower (lower other : Option Bound) : Bool :=
  match lower, other with
  | _, none => true
  | none, some _ => false
  | some a, some b =>
      match a.version.orderWithoutBuild b.version with
      | .gt => true
      | .eq => b.inclusive || !a.inclusive
      | .lt => false

def isWithinUpper (upper other : Option Bound) : Bool :=
  match upper, other with
  | _, none => true
  | none, some _ => false
  | some a, some b =>
      match a.version.orderWithoutBuild b.version with
      | .lt => true
      | .eq => b.inclusive || !a.inclusive
      | .gt => false

def isWithin (interval other : Interval) : Bool :=
  isWithinLower interval.lower other.lower && isWithinUpper interval.upper other.upper

def isPrereleaseOf (bound : Bound) (c : Comparator) : Bool :=
  c.op ≠ .unset && c.version.tag.hasPre && c.version.major == bound.version.major &&
    c.version.minor == bound.version.minor && c.version.patch == bound.version.patch

def prereleasesCanSatisfy (interval : Interval) (query : Query) : Bool :=
  let lower := interval.lower.filter fun it => it.version.tag.hasPre
  let upper := interval.upper.filter fun it =>
    it.version.tag.hasPre && (it.inclusive || it.version.tag.pre != ascii "0")
  (lower.toList ++ upper.toList).all fun bound =>
    query.ranges.any fun range => isPrereleaseOf bound range.left || isPrereleaseOf bound range.right

end Interval

/-- `*`, a lone `>=0.0.0`. -/
def Query.isStar (query : Query) : Bool :=
  query.next.isEmpty && query.range.left.op = .gte && query.range.left.version.isZero &&
    !query.range.left.version.tag.hasPre && !query.range.hasRight

namespace Group

/-- `satisfies`, except that `*` admits a prerelease too. -/
def admits (group : Group) (version : Version) : Bool :=
  group.satisfies version || (version.tag.hasPre && group.alternatives.any Query.isStar)

def admitsAnExactVersionOf (group other : Group) : Bool :=
  (other.alternatives.filterMap Query.exactVersion).any group.admits

def isRange (query : Query) : Bool :=
  query.exactVersion.isNone

def intersects (group other : Group) : Bool :=
  group.admitsAnExactVersionOf other || other.admitsAnExactVersionOf group ||
    (group.alternatives.filter isRange).any fun a =>
      let base : Interval := ({} : Interval).andQuery a
      base.isNonEmpty &&
        (other.alternatives.filter isRange).any fun b => (base.andQuery b).isNonEmpty

def isSubsetOf (group other : Group) : Bool :=
  group.alternatives.all fun a =>
    let sub := (({} : Interval).andQuery a).canonical
    !sub.isNonEmpty ||
      other.alternatives.any fun b =>
        sub.isWithin (({} : Interval).andQuery b).canonical && sub.prereleasesCanSatisfy b

end Group

end Bun.Semver
