/-
Comparators, ranges of one or two comparators, and the groups of ranges that a
range expression stands for.

A query is a chain of ranges that all have to hold, and a group is a chain of
queries of which one has to hold.  Both chains have a first link.
-/

import Bun.Semver.VersionParse

set_option autoImplicit false

namespace Bun.Semver

inductive Op where
  | unset
  | eql
  | lt
  | lte
  | gt
  | gte
deriving DecidableEq, Repr, Inhabited

structure Comparator where
  op : Op := .unset
  version : Version := {}
deriving DecidableEq, Repr, Inhabited

structure Range where
  left : Comparator := {}
  right : Comparator := {}
deriving DecidableEq, Repr, Inhabited

def u64Max : UInt64 := 0xffffffffffffffff

def checkedAddOne (n : UInt64) : Option UInt64 :=
  if n = u64Max then none else some (n + 1)

namespace Comparator

/-- `<0.0.0-0`, which no version satisfies. -/
def nullSet : Comparator where
  op := .lt
  version := { tag := .zeroPre }

def ltNextMajor (major : UInt64) : Comparator :=
  match checkedAddOne major with
  | some m => { op := .lt, version := { major := m, tag := .zeroPre } }
  | none => { op := .lte, version := { major := u64Max, minor := u64Max, patch := u64Max } }

def ltNextMinor (major minor : UInt64) : Comparator :=
  match checkedAddOne minor with
  | some m => { op := .lt, version := { major, minor := m, tag := .zeroPre } }
  | none => { op := .lte, version := { major, minor := u64Max, patch := u64Max } }

def ltNextPatch (major minor patch : UInt64) : Comparator :=
  match checkedAddOne patch with
  | some p => { op := .lt, version := { major, minor, patch := p, tag := .zeroPre } }
  | none => { op := .lte, version := { major, minor, patch := u64Max } }

def gteNextMajor (major : UInt64) (tag : Tag) : Comparator :=
  match checkedAddOne major with
  | some m => { op := .gte, version := { major := m, tag } }
  | none => nullSet

def gteNextMinor (major minor : UInt64) (tag : Tag) : Comparator :=
  match checkedAddOne minor with
  | some m => { op := .gte, version := { major, minor := m, tag } }
  | none => gteNextMajor major tag

/-- `>=0.0.0` holds of every version. -/
def satisfies (comparator : Comparator) (version : Version) : Bool :=
  match version.orderWithoutBuild comparator.version with
  | .eq => comparator.op = .lte ∨ comparator.op = .gte ∨ comparator.op = .eql
  | .gt => comparator.op = .gt ∨ comparator.op = .gte
  | .lt =>
      match comparator.op with
      | .gte => comparator.version.isZero && !comparator.version.tag.hasPre
      | op => op = .lt ∨ op = .lte

end Comparator

namespace Range

def initWildcard (version : Version) (wildcard : Wildcard) (floor : Tag) : Range :=
  match wildcard with
  | .none => { left := { op := .eql, version } }
  | .major => { left := { op := .gte, version := { tag := floor } } }
  | .minor =>
      { left := .ltNextMajor version.major
        right := { op := .gte, version := { major := version.major, tag := floor } } }
  | .patch =>
      { left := .ltNextMinor version.major version.minor
        right := { op := .gte
                   version := { major := version.major, minor := version.minor, tag := floor } } }

def hasLeft (range : Range) : Bool :=
  range.left.op ≠ .unset

def hasRight (range : Range) : Bool :=
  range.right.op ≠ .unset

def satisfies (range : Range) (version : Version) : Bool :=
  if !range.hasLeft then true
  else if !range.left.satisfies version then false
  else if range.hasRight && !range.right.satisfies version then false
  else true

/-- A comparator that is a prerelease of the same numbers. -/
def matchesPre (comparator : Comparator) (version : Version) : Bool :=
  comparator.version.tag.hasPre && version.patch == comparator.version.patch &&
    version.minor == comparator.version.minor && version.major == comparator.version.major

/-- The result, and `pre_matched` after the call. -/
def satisfiesPre (range : Range) (version : Version) (preMatched : Bool) : Bool × Bool :=
  if !range.hasLeft then (true, preMatched)
  else
    let preMatched := preMatched || matchesPre range.left version ||
      (range.hasRight && matchesPre range.right version)
    if !range.left.satisfies version then (false, preMatched)
    else if range.hasRight && !range.right.satisfies version then (false, preMatched)
    else (true, preMatched)

end Range

/-! ### Queries and groups -/

structure Query where
  range : Range := {}
  next : List Range := []
deriving DecidableEq, Repr, Inhabited

structure Flags where
  pre : Bool := false
  build : Bool := false
  skipped : Bool := false
deriving DecidableEq, Repr, Inhabited

structure Group where
  head : Query := {}
  next : List Query := []
  flags : Flags := {}
deriving DecidableEq, Repr, Inhabited

namespace Query

def ranges (query : Query) : List Range :=
  query.range :: query.next

/-- The version when this chain is one `=version` comparator. -/
def exactVersion (query : Query) : Option Version :=
  if query.next.isEmpty && query.range.left.op = .eql && !query.range.hasRight then
    some query.range.left.version
  else none

def satisfies (query : Query) (version : Version) : Bool :=
  query.ranges.all (·.satisfies version)

def satisfiesPreFrom (version : Version) : Bool → List Range → Bool × Bool
  | preMatched, [] => (true, preMatched)
  | preMatched, range :: rest =>
      match range.satisfiesPre version preMatched with
      | (true, preMatched) => satisfiesPreFrom version preMatched rest
      | (false, preMatched) => (false, preMatched)

def satisfiesPre (query : Query) (version : Version) (preMatched : Bool) : Bool × Bool :=
  satisfiesPreFrom version preMatched query.ranges

def satisfiedByPre (query : Query) (version : Version) : Bool :=
  let (satisfied, preMatched) := query.satisfiesPre version false
  satisfied && preMatched

def andRange (query : Query) (range : Range) : Query :=
  if !query.range.hasLeft && !query.range.hasRight then { query with range }
  else { query with next := query.next ++ [range] }

end Query

namespace Group

def alternatives (group : Group) : List Query :=
  group.head :: group.next

/-- A prerelease has to match the numbers of a comparator that is one. -/
def satisfiesPre (group : Group) (version : Version) : Bool :=
  group.alternatives.any (·.satisfiedByPre version)

def satisfies (group : Group) (version : Version) : Bool :=
  if version.tag.hasPre then group.satisfiesPre version
  else group.alternatives.any (·.satisfies version)

def fromComparator (left : Comparator) : Group where
  head := { range := { left } }

def nullSet : Group :=
  fromComparator .nullSet

def andRange (group : Group) (range : Range) : Group :=
  match group.next.getLast? with
  | none => { group with head := group.head.andRange range }
  | some last => { group with next := group.next.dropLast ++ [last.andRange range] }

def orRange (group : Group) (range : Range) : Group :=
  if group.next.isEmpty && group.head.next.isEmpty && !group.head.range.hasLeft then
    { group with head := { group.head with range } }
  else { group with next := group.next ++ [{ range }] }

end Group

/-! ### Well-formed groups -/

def Range.WellFormed (range : Range) : Prop :=
  range.hasRight = true → range.hasLeft = true

def Query.WellFormed (query : Query) : Prop :=
  ∀ range ∈ query.ranges, range.WellFormed

def Group.WellFormed (group : Group) : Prop :=
  ∀ query ∈ group.alternatives, query.WellFormed

theorem Range.hasLeft_iff (range : Range) : range.hasLeft = true ↔ range.left.op ≠ .unset := by
  unfold Range.hasLeft
  exact decide_eq_true_iff

theorem Range.hasRight_iff (range : Range) : range.hasRight = true ↔ range.right.op ≠ .unset := by
  unfold Range.hasRight
  exact decide_eq_true_iff

theorem Range.wellFormed_of_left {range : Range} (set : range.hasLeft = true) :
    range.WellFormed :=
  fun _ => set

theorem Range.wellFormed_default : Range.WellFormed {} := by
  intro right
  exact absurd right (by decide)

theorem Query.wellFormed_single {range : Range} (wellFormed : range.WellFormed) :
    Query.WellFormed { range } := by
  intro other member
  obtain rfl := List.mem_singleton.mp member
  exact wellFormed

theorem Query.andRange_wellFormed {query : Query} (wellFormed : query.WellFormed) {range : Range}
    (added : range.WellFormed) : (query.andRange range).WellFormed := by
  unfold Query.andRange
  split
  · intro other member
    rcases List.mem_cons.mp member with rfl | later
    · exact added
    · exact wellFormed other (List.mem_cons_of_mem query.range later)
  · intro other member
    rcases List.mem_cons.mp member with rfl | later
    · exact wellFormed _ List.mem_cons_self
    · rcases List.mem_append.mp later with inChain | last
      · exact wellFormed other (List.mem_cons_of_mem query.range inChain)
      · obtain rfl := List.mem_singleton.mp last
        exact added

theorem Group.andRange_wellFormed {group : Group} (wellFormed : group.WellFormed) {range : Range}
    (added : range.WellFormed) : (group.andRange range).WellFormed := by
  unfold Group.andRange
  split
  · intro query member
    rcases List.mem_cons.mp member with rfl | later
    · exact Query.andRange_wellFormed (wellFormed group.head List.mem_cons_self) added
    · exact wellFormed query (List.mem_cons_of_mem group.head later)
  · rename_i last found
    intro query member
    rcases List.mem_cons.mp member with rfl | later
    · exact wellFormed _ List.mem_cons_self
    · rcases List.mem_append.mp later with earlier | changed
      · exact wellFormed query
          (List.mem_cons_of_mem group.head (List.dropLast_subset _ earlier))
      · obtain rfl := List.mem_singleton.mp changed
        exact Query.andRange_wellFormed
          (wellFormed last (List.mem_cons_of_mem group.head (List.mem_of_getLast? found))) added

theorem Group.orRange_wellFormed {group : Group} (wellFormed : group.WellFormed) {range : Range}
    (added : range.WellFormed) : (group.orRange range).WellFormed := by
  unfold Group.orRange
  split
  · intro query member
    rcases List.mem_cons.mp member with rfl | later
    · intro other inQuery
      rcases List.mem_cons.mp inQuery with rfl | rest
      · exact added
      · exact wellFormed group.head List.mem_cons_self other
          (List.mem_cons_of_mem group.head.range rest)
    · exact wellFormed query (List.mem_cons_of_mem group.head later)
  · intro query member
    rcases List.mem_cons.mp member with rfl | later
    · exact wellFormed _ List.mem_cons_self
    · rcases List.mem_append.mp later with earlier | last
      · exact wellFormed query (List.mem_cons_of_mem group.head earlier)
      · obtain rfl := List.mem_singleton.mp last
        exact Query.wellFormed_single added

end Bun.Semver
