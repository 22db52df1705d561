/-
The renamer of minified code.

Symbols that may share a name share a slot.  Slots are counted while the uses of the
symbols are added up, bindings that cross chunks get a name ahead of the others, and
the slots that are left take the shortest names by descending count.
-/

import Bun.Foundation.FirstFrom
import Bun.Renamer.NameMinifier
import Bun.Renamer.Symbols

set_option autoImplicit false

namespace Bun.Renamer

open Bun.Foundation

structure SymbolSlot where
  name : List UInt8 := []
  count : UInt32 := 0
  needsCapitalForJsx : Bool := false
  pinned : Bool := false
deriving DecidableEq, Repr, Inhabited

def keywords : List (List UInt8) :=
  ["break", "case", "catch", "class", "const", "continue", "debugger", "default", "delete", "do",
    "else", "enum", "export", "extends", "false", "finally", "for", "function", "if", "import",
    "in", "instanceof", "new", "null", "return", "super", "switch", "this", "throw", "true",
    "try", "typeof", "var", "void", "while", "with"].map ascii

def slotNamespaces : List SlotNamespace :=
  [.default, .label, .privateName, .mangledProp]

structure MinifyRenamer where
  reservedNames : List (List UInt8)
  slots : SlotNamespace → List SymbolSlot
  topLevelSymbolToSlot : List (Ref × ℕ) := []

structure StableSymbolCount where
  ref : Ref
  count : UInt32

structure SlotAndCount where
  slot : ℕ
  count : UInt32

def SlotAndCount.lessThan (a b : SlotAndCount) : Ordering :=
  (compare b.count a.count).then (compare a.slot b.slot)

namespace MinifyRenamer

def init (firstTopLevelSlots : SlotNamespace → ℕ) (reservedNames : List (List UInt8)) :
    MinifyRenamer where
  reservedNames := ascii "$" :: reservedNames
  slots := fun ns => List.replicate (firstTopLevelSlots ns) {}

def setSlots (renamer : MinifyRenamer) (ns : SlotNamespace) (slots : List SymbolSlot) :
    MinifyRenamer :=
  { renamer with slots := fun other => if other = ns then slots else renamer.slots other }

def addUse (slot : SymbolSlot) (count : UInt32) (capital : Bool) : SymbolSlot :=
  { slot with
    count := slot.count + count
    needsCapitalForJsx := slot.needsCapitalForJsx || capital }

def accumulateSymbolUseCount (symbols : SymbolMap) (renamer : MinifyRenamer)
    (topLevelSymbols : List StableSymbolCount) (ref : Ref) (count : UInt32) :
    MinifyRenamer × List StableSymbolCount :=
  let ref := symbols.followPrinted ref
  let symbol := symbols.get ref
  let ns := symbol.slotNamespace
  if ns = .mustNotBeRenamed then (renamer, topLevelSymbols)
  else
    match symbol.nestedScopeSlot with
    | some i =>
        (renamer.setSlots ns ((renamer.slots ns).modify i
          (addUse · count symbol.mustStartWithCapitalLetterForJsx)), topLevelSymbols)
    | none => (renamer, topLevelSymbols ++ [{ ref, count }])

def allocateTopLevelSymbolSlot (symbols : SymbolMap) (renamer : MinifyRenamer)
    (stable : StableSymbolCount) : MinifyRenamer :=
  let symbol := symbols.get stable.ref
  let ns := symbol.slotNamespace
  let capital := symbol.mustStartWithCapitalLetterForJsx
  match renamer.topLevelSymbolToSlot.lookup stable.ref with
  | some i =>
      renamer.setSlots ns ((renamer.slots ns).modify i (addUse · stable.count capital))
  | none =>
      { renamer.setSlots ns (renamer.slots ns ++
          [{ count := stable.count, needsCapitalForJsx := capital }]) with
        topLevelSymbolToSlot :=
          (stable.ref, (renamer.slots ns).length) :: renamer.topLevelSymbolToSlot }

def allocateTopLevelSymbolSlots (symbols : SymbolMap) (renamer : MinifyRenamer)
    (topLevelSymbols : List StableSymbolCount) : MinifyRenamer :=
  topLevelSymbols.foldl (allocateTopLevelSymbolSlot symbols) renamer

/-- Gives a top-level symbol its name ahead of `assignNamesByFrequency`. -/
def pin (symbols : SymbolMap) (renamer : MinifyRenamer) (ref : Ref) (name : List UInt8) :
    MinifyRenamer :=
  let ref := symbols.follow ref
  match renamer.topLevelSymbolToSlot.lookup ref with
  | none => renamer
  | some i =>
      let ns := (symbols.get ref).slotNamespace
      { renamer.setSlots ns ((renamer.slots ns).modify i ({ · with name, pinned := true })) with
        reservedNames := name :: renamer.reservedNames }

/-! ### Naming -/

/-- The slots that are not pinned, in the order they take names. -/
def sortedSlots (slots : List SymbolSlot) : List SlotAndCount :=
  ((slots.zipIdx.filter fun (slot, _) => !slot.pinned).map fun (slot, i) =>
    { slot := i, count := slot.count : SlotAndCount }).mergeSort fun a b => (a.lessThan b).isLE

/-- The number of the name that a slot takes when the enumeration has come to `next`.  Each
loop is given `fuel` rounds. -/
def chooseNumber (fuel : ℕ) (minifier : NameMinifier) (reservedNames : List (List UInt8))
    (ns : SlotNamespace) (needsCapitalForJsx : Bool) (next : ℕ) : Option ℕ :=
  match ns with
  | .default => do
      let n ← firstFrom (fun i => !reservedNames.contains (minifier.numberToMinifiedName i)) fuel
        next
      if needsCapitalForJsx then
        firstFrom (fun i => !NameMinifier.startsLowercase (minifier.numberToMinifiedName i)) fuel n
      else some n
  | .label =>
      firstFrom (fun i => !keywords.contains (minifier.numberToMinifiedName i)) fuel next
  | _ => some next

def minifiedName (minifier : NameMinifier) (ns : SlotNamespace) (n : ℕ) : List UInt8 :=
  if ns = .privateName then 0x23 :: minifier.numberToMinifiedName n
  else minifier.numberToMinifiedName n

def setName (slots : List SymbolSlot) (i : ℕ) (name : List UInt8) : List SymbolSlot :=
  slots.modify i ({ · with name })

def needsCapital (slots : List SymbolSlot) (i : ℕ) : Bool :=
  slots[i]?.any (·.needsCapitalForJsx)

def nameSlots (fuel : ℕ) (minifier : NameMinifier) (reservedNames : List (List UInt8))
    (ns : SlotNamespace) : List SlotAndCount → ℕ → List SymbolSlot → Option (List SymbolSlot)
  | [], _, slots => some slots
  | data :: rest, next, slots => do
      let n ← chooseNumber fuel minifier reservedNames ns (needsCapital slots data.slot) next
      nameSlots fuel minifier reservedNames ns rest (n + 1)
        (setName slots data.slot (minifiedName minifier ns n))

def assignNamesByFrequency (fuel : ℕ) (minifier : NameMinifier) (renamer : MinifyRenamer) :
    Option MinifyRenamer :=
  slotNamespaces.foldlM (fun renamer ns => do
    let slots := renamer.slots ns
    let named ← nameSlots fuel minifier renamer.reservedNames ns (sortedSlots slots) 0 slots
    some (renamer.setSlots ns named)) renamer

end MinifyRenamer

end Bun.Renamer
