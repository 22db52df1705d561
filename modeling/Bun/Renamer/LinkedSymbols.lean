/-
The symbols of all files with their links, and the symbol that a reference prints.

Merging links a symbol to another one, so a chain of links ends in a root.  An import that prints
as a property of its namespace object prints the symbol of that object, which may in turn be
linked or be such an import.  `Links` and `PrintedLinks` carry that these walks come to an end.
-/

import Bun.Renamer.Symbols
import Mathlib.Algebra.Group.Nat.Defs
import Mathlib.Tactic.Common

set_option autoImplicit false

namespace Bun.Renamer

structure LinkedSymbol where
  link : Option Ref := none
  /-- The namespace object that an import prints as a property of. -/
  namespaceAlias : Option Ref := none
deriving DecidableEq, Repr

abbrev NestedList : Type := List (List LinkedSymbol)

def getConst (symbolsForSource : NestedList) (ref : Ref) : Option LinkedSymbol :=
  (symbolsForSource.getD ref.sourceIndex [])[ref.innerIndex]?

def linkOf (symbolsForSource : NestedList) (ref : Ref) : Option Ref :=
  (getConst symbolsForSource ref).bind LinkedSymbol.link

def namespaceOf (symbolsForSource : NestedList) (ref : Ref) : Option Ref :=
  (getConst symbolsForSource ref).bind LinkedSymbol.namespaceAlias

/-- What a reference packs besides the tag of a symbol: 28 bits of the inner index, at the
bottom, and the source index. -/
def Ref.toRawBits (ref : Ref) : ℕ :=
  ref.sourceIndex * 2 ^ 33 + 3 * 2 ^ 31 + ref.innerIndex

theorem Ref.toRawBits_injective {ref other : Ref} (fits : ref.innerIndex < 2 ^ 28)
    (otherFits : other.innerIndex < 2 ^ 28) (same : ref.toRawBits = other.toRawBits) :
    ref = other := by
  cases ref
  cases other
  unfold Ref.toRawBits at same
  dsimp only at fits otherFits same
  congr 1 <;> omega

/-! ### Links -/

/-- Links stay inside the tables and come closer to a root. -/
structure Links where
  symbolsForSource : NestedList
  height : Ref → ℕ
  height_lt : ∀ ref next, linkOf symbolsForSource ref = some next → height next < height ref
  link_known : ∀ ref next, linkOf symbolsForSource ref = some next →
    (getConst symbolsForSource next).isSome = true
  namespace_known : ∀ ref object, namespaceOf symbolsForSource ref = some object →
    (getConst symbolsForSource object).isSome = true
  fits : ∀ ref, (getConst symbolsForSource ref).isSome = true → ref.innerIndex < 2 ^ 28

namespace Links

def Known (links : Links) (ref : Ref) : Prop :=
  (getConst links.symbolsForSource ref).isSome = true

def followLoop (symbolsForSource : NestedList) : ℕ → Ref → Ref
  | 0, ref => ref
  | fuel + 1, ref =>
      match linkOf symbolsForSource ref with
      | none => ref
      | some next => followLoop symbolsForSource fuel next

/-- The root of a reference.  Shortening the chain of links on the way keeps every root. -/
def follow (links : Links) (ref : Ref) : Ref :=
  followLoop links.symbolsForSource (links.height ref) ref

theorem followLoop_known (links : Links) (fuel : ℕ) (ref : Ref) (known : links.Known ref) :
    links.Known (followLoop links.symbolsForSource fuel ref) := by
  induction fuel generalizing ref with
  | zero => exact known
  | succ fuel ih =>
      unfold followLoop
      cases linked : linkOf links.symbolsForSource ref with
      | none => exact known
      | some next => exact ih next (links.link_known ref next linked)

theorem follow_known (links : Links) {ref : Ref} (known : links.Known ref) :
    links.Known (links.follow ref) :=
  links.followLoop_known _ ref known

theorem follow_of_root (links : Links) {ref : Ref}
    (root : linkOf links.symbolsForSource ref = none) : links.follow ref = ref := by
  unfold follow
  cases links.height ref with
  | zero => rfl
  | succ fuel =>
      unfold followLoop
      rw [root]

end Links

/-! ### Printed symbols -/

/-- The namespace objects of imports come to an end, unless one prints itself. -/
structure PrintedLinks extends Links where
  depth : Ref → ℕ
  depth_lt : ∀ ref object, namespaceOf symbolsForSource ref = some object →
    toLinks.follow object ≠ ref → depth (toLinks.follow object) < depth ref

namespace PrintedLinks

def printedLoop (links : Links) : ℕ → Ref → Ref
  | 0, ref => ref
  | fuel + 1, ref =>
      match namespaceOf links.symbolsForSource ref with
      | none => ref
      | some object =>
          if links.follow object = ref then ref else printedLoop links fuel (links.follow object)

/-- The symbol whose name is printed for a reference. -/
def followPrinted (symbols : PrintedLinks) (ref : Ref) : Ref :=
  printedLoop symbols.toLinks (symbols.depth (symbols.follow ref)) (symbols.follow ref)

theorem printedLoop_known (links : Links) (fuel : ℕ) (ref : Ref) (known : links.Known ref) :
    links.Known (printedLoop links fuel ref) := by
  induction fuel generalizing ref with
  | zero => exact known
  | succ fuel ih =>
      unfold printedLoop
      cases aliased : namespaceOf links.symbolsForSource ref with
      | none => exact known
      | some object =>
          dsimp only
          split
          · exact known
          · exact ih _ (links.follow_known (links.namespace_known ref object aliased))

theorem followPrinted_known (symbols : PrintedLinks) {ref : Ref} (known : symbols.Known ref) :
    symbols.Known (symbols.followPrinted ref) :=
  printedLoop_known _ _ _ (symbols.follow_known known)

theorem followPrinted_of_plain (symbols : PrintedLinks) {ref : Ref}
    (root : linkOf symbols.symbolsForSource ref = none)
    (plain : namespaceOf symbols.symbolsForSource ref = none) :
    symbols.followPrinted ref = ref := by
  unfold followPrinted
  rw [symbols.follow_of_root root]
  cases symbols.depth ref with
  | zero => rfl
  | succ fuel =>
      unfold printedLoop
      rw [plain]

end PrintedLinks

end Bun.Renamer
