/-
The renamer of code that is not minified.

Every symbol keeps its own name unless that name is taken where the symbol is declared,
and then gets a number.  The top-level symbols of a chunk share one scope.  The nested
scopes of a file are named over it, and an inner symbol may take the name of an outer one
that its scope does not refer to.
-/

import Bun.Core.AsciiText
import Bun.Foundation.FirstFrom
import Bun.Renamer.Symbols

set_option autoImplicit false

namespace Bun.Renamer

open Bun.Foundation

abbrev Name := List UInt8

/-! ### Name tables -/

structure NameSlot where
  scope : ℕ
  count : ℕ
  owner : Option Ref
deriving DecidableEq, Repr, Inhabited

def noScope : ℕ := 0

def rootScope : ℕ := 1

def NameSlot.empty : NameSlot where
  scope := noScope
  count := 0
  owner := none

inductive NameUse where
  | unused
  | sameScope (count : ℕ)
  | used
deriving DecidableEq

class NameScopes (σ : Type) where
  scope : σ → ℕ
  idOf : σ → Name → Option ℕ
  intern : σ → Name → ℕ × σ
  slot : σ → ℕ → NameSlot
  setSlot : σ → ℕ → NameSlot → σ
  sees : σ → Ref → Bool
  /-- The names that have been interned. -/
  known : σ → List Name

/-- Where names that are no identifiers become ones.  The tables behind it are not part of
the model. -/
structure Identifiers where
  ensureValidIdentifier : Name → Name
  ensureValidIdentifier_ne_nil : ∀ name, ensureValidIdentifier name ≠ []

def strictModeReservedWords : List Name :=
  ["implements", "interface", "let", "package", "private", "protected", "public", "static",
    "yield"].map ascii

def isIdentifierStart (c : UInt8) : Bool :=
  (0x41 ≤ c && c ≤ 0x5a) || (0x61 ≤ c && c ≤ 0x7a) || c == 0x5f || c == 0x24

def isSimpleAsciiIdentifier (s : Name) : Bool :=
  match s with
  | [] => false
  | first :: rest =>
      isIdentifierStart first && rest.all fun c => isIdentifierStart c || (0x30 ≤ c && c ≤ 0x39)

def Identifiers.validIdentifierFor (identifiers : Identifiers) (name : Name) : Option Name :=
  if isSimpleAsciiIdentifier name && !strictModeReservedWords.contains name then none
  else some (identifiers.ensureValidIdentifier name)

def numberedName (name : Name) (n : ℕ) : Name :=
  name ++ decimalText n

namespace NameScopes

variable {σ : Type} [NameScopes σ]

def findSlot (table : σ) (slot : NameSlot) : NameUse :=
  if slot.scope = noScope then .unused
  else if slot.scope = scope table then .sameScope slot.count
  else
    match slot.owner with
    | none => .used
    | some owner => if sees table owner then .used else .unused

def find (table : σ) (id : Option ℕ) : NameUse :=
  match id with
  | none => .unused
  | some id => findSlot table (slot table id)

def place (table : σ) (name : Name) (slot : NameSlot) : σ :=
  match idOf table name with
  | some id => setSlot table id slot
  | none =>
      let (id, table) := intern table name
      setSlot table id slot

/-- The slot of a name that was numbered: where to resume for the next collision. -/
def resumeAt (table : σ) (name : Name) (tries : ℕ) : σ :=
  match idOf table name with
  | some id =>
      let slot := slot table id
      setSlot table id
        { scope := scope table
          count := tries
          owner := if slot.scope = scope table then slot.owner else none }
  | none => table

def isUnused (table : σ) (name : Name) : Bool :=
  find table (idOf table name) = .unused

/-- The first number from `start` on that makes a free name.  There are more candidates than
names that are known. -/
def freeNumber (table : σ) (name : Name) (start : ℕ) : ℕ :=
  (firstFrom (fun n => isUnused table (numberedName name n)) ((known table).length + 1)
    start).getD start

/-- The name that `owner` takes, and the table with it. -/
def findUnusedName (identifiers : Identifiers) (table : σ) (inputName : Name) (owner : Ref) :
    Name × σ :=
  let name := (identifiers.validIdentifierFor inputName).getD inputName
  match find table (idOf table name) with
  | .unused => (name, place table name { scope := scope table, count := 1, owner := some owner })
  | use =>
      let last := match use with
        | .sameScope count => count
        | _ => 1
      let tries := freeNumber table name (last + 1)
      let renamed := numberedName name tries
      (renamed, place (resumeAt table name tries) renamed
        { scope := scope table, count := 1, owner := some owner })

end NameScopes

/-! ### The top level of a chunk -/

structure NumberRenamer where
  symbols : SymbolMap
  filesInChunk : List ℕ
  crossChunkNames : Ref → Option Name
  names : Ref → Name := fun _ => []
  ids : List (Name × ℕ) := []
  slots : List NameSlot := []

namespace NumberRenamer

def intern (renamer : NumberRenamer) (name : Name) : ℕ × NumberRenamer :=
  match renamer.ids.lookup name with
  | some id => (id, renamer)
  | none =>
      (renamer.slots.length, { renamer with
        ids := (name, renamer.slots.length) :: renamer.ids
        slots := renamer.slots ++ [NameSlot.empty] })

instance : NameScopes NumberRenamer where
  scope := fun _ => rootScope
  idOf := fun renamer name => renamer.ids.lookup name
  intern := intern
  slot := fun renamer id => renamer.slots.getD id NameSlot.empty
  setSlot := fun renamer id slot => { renamer with slots := renamer.slots.set id slot }
  sees := fun _ _ => true
  known := fun renamer => renamer.ids.map Prod.fst

def init (symbols : SymbolMap) (rootNames : List (Name × ℕ)) (filesInChunk : List ℕ)
    (crossChunkNames : Ref → Option Name) : NumberRenamer :=
  rootNames.foldl (fun renamer (key, count) =>
    NameScopes.place renamer key { scope := rootScope, count, owner := none })
    { symbols, filesInChunk, crossChunkNames }

def inChunk (renamer : NumberRenamer) (sourceIndex : ℕ) : Bool :=
  renamer.filesInChunk.contains sourceIndex

def storeName (renamer : NumberRenamer) (ref : Ref) (name : Name) : NumberRenamer :=
  { renamer with names := fun other => if other = ref then name else renamer.names other }

def addTopLevelSymbol (identifiers : Identifiers) (renamer : NumberRenamer) (inputRef : Ref) :
    NumberRenamer :=
  let ref := renamer.symbols.follow inputRef
  if !renamer.inChunk ref.sourceIndex then renamer
  else if !(renamer.names ref).isEmpty then renamer
  else
    let symbol := renamer.symbols.get ref
    if symbol.slotNamespace ≠ .default then renamer
    else
      let (name, renamer) :=
        NameScopes.findUnusedName identifiers renamer symbol.originalName ref
      renamer.storeName ref name

def pinTopLevelSymbol (renamer : NumberRenamer) (inputRef : Ref) (name : Name) : NumberRenamer :=
  let ref := renamer.symbols.follow inputRef
  if (renamer.symbols.get ref).slotNamespace ≠ .default then renamer
  else
    let pinned := NameScopes.place renamer name { scope := rootScope, count := 1, owner := some ref }
    if renamer.inChunk ref.sourceIndex then pinned.storeName ref name else pinned

def nameForSymbol (renamer : NumberRenamer) (inputRef : Ref) : Name :=
  let ref := renamer.symbols.follow inputRef
  let symbol := renamer.symbols.get ref
  if !renamer.inChunk ref.sourceIndex then
    if symbol.slotNamespace = .default then
      (renamer.crossChunkNames ref).getD symbol.originalName
    else symbol.originalName
  else if !(renamer.names ref).isEmpty then renamer.names ref
  else symbol.originalName

end NumberRenamer

/-! ### The nested scopes of a file -/

/-- `index` tells the scopes of a file apart. -/
inductive Scope where
  | mk (index : ℕ) (members generated : List Ref) (children : List Scope)

structure NestedRenamer where
  root : NumberRenamer
  /-- `sees` of `ScopeUses`: whether a symbol is used in a scope. -/
  uses : Ref → ℕ → Bool
  sourceIndex : ℕ
  /-- By inner index. -/
  names : ℕ → Name
  overlay : ℕ → Option ℕ := fun _ => none
  nextLocalId : ℕ
  slots : List NameSlot := []
  localIds : List (Name × ℕ) := []
  /-- The newest entry comes first. -/
  undo : List (ℕ × ℕ) := []
  scope : ℕ := rootScope
  nextScope : ℕ := rootScope + 1
  astScope : ℕ := 0

namespace NestedRenamer

def new (root : NumberRenamer) (uses : Ref → ℕ → Bool) (sourceIndex : ℕ) : NestedRenamer where
  root := root
  uses := uses
  sourceIndex := sourceIndex
  names := fun inner =>
    if root.inChunk sourceIndex then root.names { innerIndex := inner, sourceIndex } else []
  nextLocalId := root.slots.length

def intern (renamer : NestedRenamer) (name : Name) : ℕ × NestedRenamer :=
  match renamer.localIds.lookup name with
  | some id => (id, renamer)
  | none =>
      (renamer.nextLocalId, { renamer with
        localIds := (name, renamer.nextLocalId) :: renamer.localIds
        nextLocalId := renamer.nextLocalId + 1 })

def setOverlay (overlay : ℕ → Option ℕ) (id : ℕ) (index : Option ℕ) : ℕ → Option ℕ :=
  fun other => if other = id then index else overlay other

def setSlot (renamer : NestedRenamer) (id : ℕ) (slot : NameSlot) : NestedRenamer :=
  match renamer.overlay id with
  | some index =>
      if (renamer.slots.getD index NameSlot.empty).scope = renamer.scope then
        { renamer with slots := renamer.slots.set index slot }
      else
        { renamer with
          undo := (id, index + 1) :: renamer.undo
          overlay := setOverlay renamer.overlay id (some renamer.slots.length)
          slots := renamer.slots ++ [slot] }
  | none =>
      { renamer with
        undo := (id, 0) :: renamer.undo
        overlay := setOverlay renamer.overlay id (some renamer.slots.length)
        slots := renamer.slots ++ [slot] }

instance : NameScopes NestedRenamer where
  scope := scope
  idOf := fun renamer name =>
    (renamer.root.ids.lookup name).orElse fun _ => renamer.localIds.lookup name
  intern := intern
  slot := fun renamer id =>
    match renamer.overlay id with
    | none => renamer.root.slots.getD id NameSlot.empty
    | some index => renamer.slots.getD index NameSlot.empty
  setSlot := setSlot
  sees := fun renamer owner => renamer.uses owner renamer.astScope
  known := fun renamer => renamer.root.ids.map Prod.fst ++ renamer.localIds.map Prod.fst

def assignName (identifiers : Identifiers) (renamer : NestedRenamer) (inputRef : Ref) :
    NestedRenamer :=
  let ref := renamer.root.symbols.follow inputRef
  if ref.sourceIndex ≠ renamer.sourceIndex then renamer
  else if !(renamer.names ref.innerIndex).isEmpty then renamer
  else
    let symbol := renamer.root.symbols.get ref
    if symbol.slotNamespace ≠ .default then renamer
    else
      let (name, renamer) :=
        NameScopes.findUnusedName identifiers renamer symbol.originalName ref
      { renamer with
        names := fun inner => if inner = ref.innerIndex then name else renamer.names inner }

/-- The symbols of a scope in the order they are named. -/
def refsOf (sourceIndex : ℕ) (members generated : List Ref) : List Ref :=
  (((members.map (·.innerIndex)).mergeSort fun a b => a ≤ b).map fun inner =>
    ({ innerIndex := inner, sourceIndex } : Ref)) ++ generated

def enter (renamer : NestedRenamer) (index : ℕ) : NestedRenamer :=
  { renamer with
    scope := renamer.nextScope
    nextScope := renamer.nextScope + 1
    astScope := index }

def undoEntry (overlay : ℕ → Option ℕ) (entry : ℕ × ℕ) : ℕ → Option ℕ :=
  setOverlay overlay entry.1 (if entry.2 = 0 then none else some (entry.2 - 1))

/-- Back to the scope that `before` was in. -/
def leave (renamer before : NestedRenamer) : NestedRenamer :=
  let added := renamer.undo.length - before.undo.length
  { renamer with
    overlay := (renamer.undo.take added).foldl undoEntry renamer.overlay
    undo := renamer.undo.drop added
    slots := renamer.slots.take before.slots.length
    scope := before.scope
    astScope := before.astScope }

mutual

def assignNamesRecursive (identifiers : Identifiers) (renamer : NestedRenamer) :
    Scope → NestedRenamer
  | .mk index members generated children =>
      let named := (refsOf renamer.sourceIndex members generated).foldl (assignName identifiers)
        (renamer.enter index)
      (assignNamesOfChildren identifiers named children).leave renamer

def assignNamesOfChildren (identifiers : Identifiers) (renamer : NestedRenamer) :
    List Scope → NestedRenamer
  | [] => renamer
  | child :: rest =>
      assignNamesOfChildren identifiers (assignNamesRecursive identifiers renamer child) rest

end

end NestedRenamer

def NumberRenamer.absorb (renamer : NumberRenamer) (nested : NestedRenamer) : NumberRenamer :=
  if renamer.inChunk nested.sourceIndex then
    { renamer with
      names := fun ref =>
        if ref.sourceIndex = nested.sourceIndex then nested.names ref.innerIndex
        else renamer.names ref }
  else renamer

end Bun.Renamer
