/-
The entries of a chunk key that something else in the key always loads before.

The entries and a virtual root are the nodes of the import graph: the virtual root comes before
every entry that may be the first thing loaded, and each importer before the guaranteed entries
that it imports.  `LoadClass.walk` and `LoadClass.fastPath` are the two ways in which
`load_class` finds out that an entry is preceded by the key.
-/

import Bun.Bundler.ImmediateDominators
import Mathlib.Data.Finset.Basic
import Mathlib.Data.List.FinRange

set_option autoImplicit false

namespace Bun.Bundler

variable {n : ℕ}

/-- What the entries import, and what decides whether an entry is guaranteed. -/
structure EntryGraph (n : ℕ) where
  isDynamicEntry : Fin n → Bool
  requiredSync : Finset (Fin n)
  awaits : Finset (Fin n)
  importerBits : Fin n → Finset (Fin n)

namespace EntryGraph

def guaranteed (graph : EntryGraph n) (entryId : Fin n) : Bool :=
  graph.isDynamicEntry entryId && decide (entryId ∉ graph.requiredSync) &&
    decide (graph.importerBits entryId ≠ ∅) &&
    decide (graph.importerBits entryId ∩ graph.awaits = ∅)

def importers (graph : EntryGraph n) (entryId : Fin n) : List (Fin n) :=
  (List.finRange n).filter fun importer => importer ∈ graph.importerBits entryId

def vroot (n : ℕ) : Fin (n + 1) :=
  Fin.last n

def entryOf (node : Fin (n + 1)) : Option (Fin n) :=
  if isEntry : node.val < n then some ⟨node.val, isEntry⟩ else none

def comesBehind (graph : EntryGraph n) (node : Fin (n + 1)) (entryId : Fin n) : Bool :=
  match entryOf node with
  | none => !graph.guaranteed entryId
  | some importer => graph.guaranteed entryId && decide (importer ∈ graph.importerBits entryId)

def successors (graph : EntryGraph n) (node : Fin (n + 1)) : List (Fin (n + 1)) :=
  ((List.finRange n).filter (graph.comesBehind node)).map Fin.castSucc

/-- The predecessors of the virtual root are not asked for. -/
def predecessors (graph : EntryGraph n) (node : Fin (n + 1)) : List (Fin (n + 1)) :=
  match entryOf node with
  | none => []
  | some entryId =>
      if graph.guaranteed entryId then (graph.importers entryId).map Fin.castSucc else [vroot n]

def idom (graph : EntryGraph n) (fuel : ℕ) : Option (Fin (n + 1) → Option (Fin (n + 1))) :=
  immediateDominators fuel graph.successors (vroot n) graph.predecessors

end EntryGraph

namespace LoadClass

open EntryGraph

/-- Follows the dominators of an entry up to one of the key, or to the virtual root.  A result of
`none` says that the fuel was too low or that a dominator was `UNREACHED`. -/
def followUp (key : Finset (Fin n)) (idom : Fin (n + 1) → Option (Fin (n + 1))) :
    ℕ → Fin (n + 1) → Option Bool
  | 0, _ => none
  | fuel + 1, up =>
      match entryOf up with
      | none => some false
      | some entryId =>
          if entryId ∈ key then some true
          else
            match idom up with
            | none => none
            | some next => followUp key idom fuel next

def fastPath (key : Finset (Fin n)) (idom : Fin (n + 1) → Option (Fin (n + 1))) (fuel : ℕ)
    (entryId : Fin n) : Option Bool :=
  match idom entryId.castSucc with
  | none => some true
  | some up => followUp key idom fuel up

/-- Goes through the importers of an entry; `none` leaves the walk at a root. -/
def scan (graph : EntryGraph n) (key : Finset (Fin n))
    (idom : Fin (n + 1) → Option (Fin (n + 1))) :
    List (Fin n) → Finset (Fin n) → List (Fin n) → Option (Finset (Fin n) × List (Fin n))
  | [], seen, worklist => some (seen, worklist)
  | importer :: rest, seen, worklist =>
      if importer ∈ key ∨ importer ∈ seen ∨ idom importer.castSucc = none then
        scan graph key idom rest seen worklist
      else if graph.guaranteed importer = false then none
      else scan graph key idom rest (insert importer seen) (importer :: worklist)

theorem scan_measure {graph : EntryGraph n} {key : Finset (Fin n)}
    {idom : Fin (n + 1) → Option (Fin (n + 1))} {importers : List (Fin n)} {seen : Finset (Fin n)}
    {worklist : List (Fin n)} {after : Finset (Fin n) × List (Fin n)}
    (isAfter : scan graph key idom importers seen worklist = some after) :
    after.1ᶜ.card + after.2.length = seenᶜ.card + worklist.length := by
  fun_induction scan graph key idom importers seen worklist with
  | case1 seen worklist =>
      rw [← Option.some.inj isAfter]
  | case2 importer rest seen worklist _ ih => exact ih isAfter
  | case3 => nomatch isAfter
  | case4 importer rest seen worklist notSkipped _ ih =>
      have isNew : importer ∉ seen := fun isSeen => notSkipped (Or.inr (Or.inl isSeen))
      have fewer : (insert importer seen)ᶜ.card + 1 = seenᶜ.card := by
        rw [Finset.compl_insert, Finset.card_erase_add_one (Finset.mem_compl.mpr isNew)]
      rw [ih isAfter, List.length_cons]
      omega

def walk (graph : EntryGraph n) (key : Finset (Fin n))
    (idom : Fin (n + 1) → Option (Fin (n + 1))) (seen : Finset (Fin n)) (worklist : List (Fin n)) :
    Bool :=
  match worklist with
  | [] => true
  | below :: rest =>
      match isAfter : scan graph key idom (graph.importers below) seen rest with
      | none => false
      | some after => walk graph key idom after.1 after.2
termination_by seenᶜ.card + worklist.length
decreasing_by
  rw [scan_measure isAfter, List.length_cons]
  omega

def preceded (graph : EntryGraph n) (key : Finset (Fin n))
    (idom : Fin (n + 1) → Option (Fin (n + 1))) (fuel : ℕ) (entryId : Fin n) : Option Bool :=
  match fastPath key idom fuel entryId with
  | none => none
  | some true => some true
  | some false => some (walk graph key idom ∅ [entryId])

/-- `class` and `dropped`, as the candidates leave them. -/
structure Class (n : ℕ) where
  entries : Finset (Fin n)
  dropped : Bool

def tryDrop (graph : EntryGraph n) (key : Finset (Fin n))
    (idom : Fin (n + 1) → Option (Fin (n + 1))) (fuel : ℕ) (state : Class n) (entryId : Fin n) :
    Option (Class n) :=
  if graph.guaranteed entryId = false then some state
  else
    match preceded graph key idom fuel entryId with
    | none => none
    | some true => some { entries := state.entries.erase entryId, dropped := true }
    | some false => some state

end LoadClass

/-- `key` without its redundant entries; a key of redundant entries alone is left as it is. -/
def loadClass (graph : EntryGraph n) (fuel : ℕ) (idom : Fin (n + 1) → Option (Fin (n + 1)))
    (key : Finset (Fin n)) : Option (Finset (Fin n)) :=
  match ((List.finRange n).filter (· ∈ key)).foldlM (LoadClass.tryDrop graph key idom fuel)
    { entries := key, dropped := false } with
  | none => none
  | some state => if state.dropped = true ∧ state.entries = ∅ then some key else some state.entries

end Bun.Bundler
