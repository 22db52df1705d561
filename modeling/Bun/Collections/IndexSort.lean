/-
Sorts of lists of indices that ask a comparison which may answer anything.

Blocks of items are sorted by insertion.  Then neighbouring runs are merged, twice as wide
ones each time: by `merge`, which copies the left run out, or by `sym_merge`, which moves
items by rotations alone.  A comparison may keep a state of its own, so its answer to the
same question may change.  An access outside a slice and a subtraction below zero fail.
-/

import Bun.Foundation.Yields

set_option autoImplicit false

namespace Bun.Collections.IndexSort

variable {α σ : Type}

/-- `dyn FnMut(u32, u32) -> Ordering`, with the state that it keeps. -/
abbrev Comparison (α σ : Type) :=
  α → α → σ → Ordering × σ

abbrev Run (σ β : Type) :=
  StateT σ Option β

def compareBy (cmp : Comparison α σ) (a b : α) : Run σ Ordering :=
  fun s => some (cmp a b s)

def readAt (items : List α) (i : ℕ) : Run σ α :=
  StateT.lift items[i]?

def writeAt (items : List α) (i : ℕ) (item : α) : Run σ (List α) :=
  StateT.lift (if i < items.length then some (items.set i item) else none)

def subtract (a b : ℕ) : Run σ ℕ :=
  StateT.lift (if b ≤ a then some (a - b) else none)

def changeSlice (items : List α) (start stop : ℕ) (change : List α → Option (List α)) :
    Run σ (List α) :=
  StateT.lift
    (if start ≤ stop ∧ stop ≤ items.length then
      (change ((items.take stop).drop start)).map fun slice =>
        items.take start ++ (slice ++ items.drop stop)
    else none)

def rotateLeft (count : ℕ) (slice : List α) : Option (List α) :=
  if count ≤ slice.length then some (slice.drop count ++ slice.take count) else none

def rotateRight (count : ℕ) (slice : List α) : Option (List α) :=
  if count ≤ slice.length then rotateLeft (slice.length - count) slice else none

def copyFrom (source slice : List α) : Option (List α) :=
  if slice.length = source.length then some source else none

/-! ### Insertion -/

def insertionRun : ℕ := 20

def insertionPoint (cmp : Comparison α σ) (run : List α) (stop : ℕ) : ℕ → Run σ ℕ
  | 0 => pure 0
  | at' + 1 => do
      let item ← readAt run stop
      let before ← readAt run at'
      let answer ← compareBy cmp item before
      if answer = .lt then insertionPoint cmp run stop at' else pure (at' + 1)

def insertItem (cmp : Comparison α σ) (run : List α) (stop : ℕ) : Run σ (List α) := do
  let place ← insertionPoint cmp run stop stop
  changeSlice run place (stop + 1) (rotateRight 1)

/-- The items from `stop` on, `left` of them, go to their places one after another. -/
def insertItems (cmp : Comparison α σ) : ℕ → ℕ → List α → Run σ (List α)
  | _, 0, run => pure run
  | stop, left + 1, run => do
      let run ← insertItem cmp run stop
      insertItems cmp (stop + 1) left run

def insertionSort (cmp : Comparison α σ) (run : List α) : Run σ (List α) :=
  insertItems cmp 1 (run.length - 1) run

/-! ### Passes over runs -/

/-- `for chunk in items.chunks_mut(size)`, with what `change` makes of a chunk in its place. -/
def changeChunks (size : ℕ) (change : List α → Run σ (List α)) (items : List α) :
    Run σ (List α) :=
  if items = [] ∨ size = 0 then pure items
  else do
    let first ← change (items.take size)
    let rest ← changeChunks size change (items.drop size)
    return first ++ rest
termination_by items.length
decreasing_by
  rename_i more
  have notEmpty : items.length ≠ 0 := fun isZero => more (Or.inl (List.length_eq_zero_iff.mp isZero))
  rw [List.length_drop]
  omega

/-- `while width < len`, with `pass` over the chunks of two runs. -/
def mergePasses (len : ℕ) (pass : ℕ → List α → Run σ (List α)) (width : ℕ) (items : List α) :
    Run σ (List α) :=
  if 0 < width ∧ width < len then do
    let items ← changeChunks (2 * width) (pass width) items
    mergePasses len pass (2 * width) items
  else pure items
termination_by len - width
decreasing_by omega

/-! ### Merging with a copy -/

/-- The loop's state: what has been merged and not yet, and where it stands in both runs and
in the output. -/
structure Merging (α : Type) where
  both : List α
  fromLeft : ℕ
  fromRight : ℕ
  target : ℕ

def mergeLoop (cmp : Comparison α σ) (len middle : ℕ) (left : List α) (now : Merging α) :
    Run σ (Merging α) :=
  if now.fromLeft < middle ∧ now.fromRight < len then do
    let right ← readAt now.both now.fromRight
    let item ← readAt left now.fromLeft
    let answer ← compareBy cmp right item
    if answer = .lt then
      let both ← writeAt now.both now.target right
      mergeLoop cmp len middle left
        { both, fromLeft := now.fromLeft, fromRight := now.fromRight + 1, target := now.target + 1 }
    else
      let both ← writeAt now.both now.target item
      mergeLoop cmp len middle left
        { both, fromLeft := now.fromLeft + 1, fromRight := now.fromRight, target := now.target + 1 }
  else pure now
termination_by (middle - now.fromLeft) + (len - now.fromRight)
decreasing_by all_goals omega

def mergeFinish (left : List α) (now : Merging α) : Run σ (List α) :=
  changeSlice now.both now.target now.fromRight (copyFrom (left.drop now.fromLeft))

def needsMerge (cmp : Comparison α σ) (both : List α) (middle : ℕ) : Run σ Bool :=
  if middle ≥ both.length then pure false
  else do
    let right ← readAt both middle
    let before ← subtract middle 1
    let left ← readAt both before
    let answer ← compareBy cmp right left
    return answer == .lt

def merge (cmp : Comparison α σ) (middle : ℕ) (both : List α) : Run σ (List α) := do
  let needed ← needsMerge cmp both middle
  if needed then
    let left := both.take middle
    let now ← mergeLoop cmp both.length middle left
      { both, fromLeft := 0, fromRight := middle, target := 0 }
    mergeFinish left now
  else return both

def mergeSort (cmp : Comparison α σ) (indices : List α) : Run σ (List α) := do
  let sorted ← changeChunks insertionRun (insertionSort cmp) indices
  mergePasses indices.length (merge cmp) insertionRun sorted

def mergeSortIndices (cmp : Comparison α σ) (indices : List α) : Run σ (List α) :=
  mergeSort cmp indices

/-! ### Merging by rotations -/

def goBlock : ℕ := 20

/-- `while low < high`, which goes on behind the place in the middle or in front of it. -/
def bisectBy (goesBehind : ℕ → Run σ Bool) (low high : ℕ) : Run σ ℕ :=
  if low < high then do
    let behind ← goesBehind ((low + high) / 2)
    if behind then bisectBy goesBehind ((low + high) / 2 + 1) high
    else bisectBy goesBehind low ((low + high) / 2)
  else pure low
termination_by high - low
decreasing_by all_goals omega

def isLess (cmp : Comparison α σ) (both : List α) (i j : ℕ) : Run σ Bool := do
  let first ← readAt both i
  let second ← readAt both j
  let answer ← compareBy cmp first second
  return answer == .lt

def mergeFirst (cmp : Comparison α σ) (len : ℕ) (both : List α) : Run σ (List α) := do
  let low ← bisectBy (fun place => isLess cmp both place 0) 1 len
  changeSlice both 0 low (rotateLeft 1)

/-- The last item goes before the first of the others that it is less than. -/
def mergeLast (cmp : Comparison α σ) (len middle : ℕ) (both : List α) : Run σ (List α) := do
  let low ← bisectBy (fun place => do return !(← isLess cmp both middle place)) 0 middle
  changeSlice both low len (rotateRight 1)

def rotationStart (cmp : Comparison α σ) (len middle : ℕ) (both : List α) : Run σ ℕ := do
  let half := len / 2
  let sum := half + middle
  let start ← (if middle > half then subtract sum len else pure 0)
  let stop := if middle > half then half else middle
  bisectBy
    (fun place => do
      let last ← subtract sum 1
      let opposite ← subtract last place
      return !(← isLess cmp both opposite place))
    start stop

/-- Merges `both[..middle]` with the rest, for a `both` of length `len`. -/
def symMergeOf (cmp : Comparison α σ) (len : ℕ) (both : List α) (middle : ℕ) : Run σ (List α) :=
  if middle = 1 then mergeFirst cmp len both
  else if middle + 1 = len then mergeLast cmp len middle both
  else do
    let start ← rotationStart cmp len middle both
    let stop ← subtract (len / 2 + middle) start
    let both ← (if start < middle ∧ middle < stop then
      changeSlice both start stop (rotateLeft (middle - start)) else pure both)
    let first := both.take (len / 2)
    let second := both.drop (len / 2)
    let first ← (if _inFirst : 0 < start ∧ start < len / 2 then
      symMergeOf cmp (len / 2) first start else pure first)
    let second ← (if _inSecond : len / 2 < stop ∧ stop < len then
      symMergeOf cmp (len - len / 2) second (stop - len / 2) else pure second)
    return first ++ second
termination_by len
decreasing_by all_goals omega

def symMerge (cmp : Comparison α σ) (middle : ℕ) (both : List α) : Run σ (List α) :=
  symMergeOf cmp both.length both middle

def goStableSort (cmp : Comparison α σ) (indices : List α) : Run σ (List α) := do
  let sorted ← changeChunks goBlock (insertionSort cmp) indices
  mergePasses indices.length
    (fun width both => if width < both.length then symMerge cmp width both else pure both)
    goBlock sorted

end Bun.Collections.IndexSort
