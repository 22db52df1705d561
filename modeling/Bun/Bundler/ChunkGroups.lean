/-
Small chunks are folded into other chunks.

The files with one chunk key form a group.  Groups that are loaded together fold first.  Then a
group without side effects may fold into one that is loaded by more entries, when its imports
are loaded there too or are free of side effects, and when no cycle of imports closes.  Which
folds are tried, and what they may cost an entry in bytes, is left open.
-/

import Bun.Foundation.GraphSearch
import Bun.Foundation.KahnOrder
import Mathlib.Data.List.Dedup
import Mathlib.Data.Finset.Union

set_option autoImplicit false

namespace Bun.Bundler

open Bun.Foundation

/-! ### Groups -/

inductive Target where
  | browser
  | bun
  | bunMacro
  | node
  | serverComponentsSsr
deriving DecidableEq, Repr

structure Group (n : ℕ) where
  size : ℕ := 0
  /-- Nothing once two files disagree. -/
  target : Option Target
  bits : Finset ℕ
  /-- Entries whose loading implies that the group is loaded. -/
  loaded : Finset ℕ
  loadedCount : ℕ := 0
  pinned : Bool := false
  /-- The entries that can start loading while the group is being evaluated. -/
  loadsMidEvaluation : Option (Finset ℕ) := none
  /-- Every live part of every file is free of side effects. -/
  pure : Bool := true
  deps : List (Fin n) := []
  importers : List (Fin n) := []
  needsInit : List ℕ := []
  providesInit : List ℕ := []
  /-- The position in a topological order, importer before imported. -/
  topo : ℕ := 0
  mergedInto : Option (Fin n) := none
  hoisted : Bool := false

abbrev Groups (n : ℕ) : Type := Fin n → Group n

variable {n : ℕ}

namespace Group

def loadsEntryOf (group : Group n) (entries : Finset ℕ) : Bool :=
  match group.loadsMidEvaluation with
  | none => false
  | some loads => decide (loads ∩ entries).Nonempty

def isLive (group : Group n) : Bool :=
  group.mergedInto.isNone

end Group

def mergeSorted {α : Type} [LinearOrder α] (target source : List α) : List α :=
  if source.isEmpty then target else ((target ++ source).mergeSort (· ≤ ·)).dedup

def unionInto (slot : Option (Finset ℕ)) (bits : Finset ℕ) : Option (Finset ℕ) :=
  match slot with
  | none => some bits
  | some all => some (all ∪ bits)

/-- The target inherits size, imports, load conditions and impurity. -/
def fold (groups : Groups n) (source target : Fin n) : Groups n := fun g =>
  if g = target then
    { groups target with
      size := (groups target).size + (groups source).size
      pure := (groups target).pure && (groups source).pure
      loaded := (groups target).loaded ∪ (groups source).loaded
      deps := (mergeSorted (groups target).deps (groups source).deps).filter
        fun g => g ≠ target ∧ g ≠ source
      importers := (mergeSorted (groups target).importers (groups source).importers).filter
        fun g => g ≠ target ∧ g ≠ source
      needsInit := mergeSorted (groups target).needsInit (groups source).needsInit
      providesInit := mergeSorted (groups target).providesInit (groups source).providesInit
      loadsMidEvaluation :=
        match (groups source).loadsMidEvaluation with
        | none => (groups target).loadsMidEvaluation
        | some loads => unionInto (groups target).loadsMidEvaluation loads }
  else if g = source then
    { groups source with
      mergedInto := some target
      deps := []
      importers := []
      loadsMidEvaluation := none }
  else groups g

/-! ### The group that owns the files -/

def follow (groups : Groups n) : ℕ → Fin n → Fin n
  | 0, index => index
  | fuel + 1, index =>
      match (groups index).mergedInto with
      | none => index
      | some into => follow groups fuel into

def resolve (groups : Groups n) (index : Fin n) : Fin n :=
  follow groups n index

inductive Resolves (groups : Groups n) : ℕ → Fin n → Fin n → Prop where
  | live (index : Fin n) (isLive : (groups index).mergedInto = none) :
      Resolves groups 0 index index
  | merged {steps : ℕ} {index into owner : Fin n}
      (isMerged : (groups index).mergedInto = some into)
      (rest : Resolves groups steps into owner) : Resolves groups (steps + 1) index owner

/-! ### Imports -/

def importsOf (groups : Groups n) (g : Fin n) : List (Fin n) :=
  (groups g).deps.map (resolve groups)

/-- The first group imports the second, directly or through others.  Every edge goes up, so
nothing past the second needs visiting. -/
def reaches (groups : Groups n) (start goal : Fin n) : Bool :=
  if (groups goal).topo ≤ (groups start).topo then start = goal
  else
    search (importsOf groups) (fun g => (groups g).topo < (groups goal).topo) goal {start} [start]

def importGraph (groups : Groups n) : FiniteGraph n where
  live g := (groups g).isLive
  next g := (importsOf groups g).filter (· ≠ g)

def Imports (groups : Groups n) : Fin n → Fin n → Prop :=
  (importGraph groups).Edge

def numberTopologically (groups : Groups n) : Groups n × Bool :=
  let numbered :=
    (importGraph groups).number (fun g => (groups g).loadedCount) fun g => (groups g).topo
  (fun g => { groups g with topo := numbered.1 g }, numbered.2)

/-- Each needed module is initialized by a chunk other than the merged ones. -/
def initsProvided (groups : Groups n) (groupOfFile : ℕ → Fin n) (needs : List ℕ)
    (merged : List (Fin n)) : Bool :=
  needs.all fun x =>
    let home := resolve groups (groupOfFile x)
    home ∉ merged && (groups home).providesInit.contains x

/-- The groups without side effects that start loading, as far as they are known. -/
def collectFrom (groups : Groups n) (targetLoaded : Finset ℕ) (visited : Finset (Fin n))
    (stack newlyLoaded : List (Fin n)) : Option (List (Fin n)) :=
  match stack with
  | [] => some newlyLoaded
  | d :: rest =>
      if d ∈ visited then collectFrom groups targetLoaded visited rest newlyLoaded
      else if targetLoaded ⊆ (groups d).loaded then
        collectFrom groups targetLoaded (insert d visited) rest newlyLoaded
      else if !(groups d).pure then none
      else
        collectFrom groups targetLoaded (insert d visited)
          ((importsOf groups d).reverse ++ rest) (newlyLoaded ++ [d])
termination_by (visitedᶜ.card, stack.length)
decreasing_by
  · exact Prod.Lex.right _ (Nat.lt_succ_self _)
  · refine Prod.Lex.left _ _ ?_
    rw [Finset.compl_insert]
    exact Finset.card_erase_lt_of_mem (Finset.mem_compl.mpr (by assumption))
  · refine Prod.Lex.left _ _ ?_
    rw [Finset.compl_insert]
    exact Finset.card_erase_lt_of_mem (Finset.mem_compl.mpr (by assumption))

/-- Nothing when a dependency with side effects would be loaded earlier. -/
def collectNewlyLoaded (groups : Groups n) (candidate target : Fin n) : Option (List (Fin n)) :=
  collectFrom groups (groups target).loaded {candidate, target}
    (importsOf groups candidate).reverse [candidate]

/-! ### The second rule -/

def isCandidate (minChunkSize : ℕ) (groups : Groups n) (candidate : Fin n) : Bool :=
  (groups candidate).isLive && !(groups candidate).pinned && (groups candidate).pure &&
    (groups candidate).size < minChunkSize && (groups candidate).target.isSome

def wouldCycle (groups : Groups n) (candidate target : Fin n) : Bool :=
  reaches groups target candidate ||
    (importsOf groups candidate).any fun d =>
      d ≠ target && d ≠ candidate && reaches groups d target

def isTarget (groups : Groups n) (candidate target : Fin n) : Bool :=
  target ≠ candidate && (groups target).isLive && !(groups target).pinned &&
    (groups target).target = (groups candidate).target &&
    (groups candidate).loaded ⊆ (groups target).loaded &&
    !(groups target).loadsEntryOf (groups candidate).loaded &&
    !(groups candidate).loadsEntryOf (groups target).loaded &&
    !wouldCycle groups candidate target

def initsCovered (groups : Groups n) (groupOfFile : ℕ → Fin n) (candidate target : Fin n)
    (newlyLoaded : List (Fin n)) : Bool :=
  initsProvided groups groupOfFile (groups candidate).needsInit [target, candidate] &&
    initsProvided groups groupOfFile (groups target).needsInit [candidate, candidate] &&
    newlyLoaded.tail.all fun g =>
      initsProvided groups groupOfFile (groups g).needsInit [g, g]

def startLoading (groups : Groups n) (newlyLoaded : List (Fin n)) (targetLoaded : Finset ℕ) :
    Groups n := fun g =>
  if g ∈ newlyLoaded then { groups g with loaded := (groups g).loaded ∪ targetLoaded }
  else groups g

/-- A shared chunk's key covers every entry that reaches its files. -/
def coverBits (groups : Groups n) (candidate target : Fin n) : Groups n := fun g =>
  if g = target ∧ 1 < (groups target).bits.card then
    { groups g with bits := (groups g).bits ∪ (groups candidate).bits }
  else groups g

def outOfOrder (groups : Groups n) (candidate target : Fin n) (list : List (Fin n))
    (before : Bool) : Bool :=
  (list.map (resolve groups)).any fun g =>
    g ≠ target && g ≠ candidate &&
      decide ((groups g).topo < (groups target).topo) != before

def markHoisted (groups : Groups n) (candidate : Fin n) : Groups n := fun g =>
  if g = candidate then { groups g with hoisted := true } else groups g

/-- The target takes over the candidate's edges, which is only certainly fine where it sat
between the candidate's importers and dependencies. -/
def hoist (groups : Groups n) (candidate target : Fin n) (newlyLoaded : List (Fin n)) :
    Groups n × Bool :=
  let started := startLoading groups newlyLoaded.tail (groups target).loaded
  let covered := coverBits started candidate target
  let renumber := outOfOrder covered candidate target (covered candidate).importers true ||
    outOfOrder covered candidate target (covered candidate).deps false
  let folded := markHoisted (fold covered candidate target) candidate
  if renumber then numberTopologically folded else (folded, true)

def tryFold (minChunkSize : ℕ) (groupOfFile : ℕ → Fin n) (groups : Groups n)
    (candidate target : Fin n) : Option (Groups n × Bool) :=
  if isCandidate minChunkSize groups candidate && isTarget groups candidate target then
    match collectNewlyLoaded groups candidate target with
    | none => none
    | some newlyLoaded =>
        if initsCovered groups groupOfFile candidate target newlyLoaded then
          some (hoist groups candidate target newlyLoaded)
        else none
  else none

def countLoaded (groups : Groups n) : Groups n := fun g =>
  if (groups g).isLive then { groups g with loadedCount := (groups g).loaded.card }
  else groups g

def startPass (groups : Groups n) : Groups n × Bool :=
  numberTopologically (countLoaded groups)

/-- Passes with any folds in them, whichever are tried. -/
inductive Rule2 (minChunkSize : ℕ) (groupOfFile : ℕ → Fin n) (first : Groups n) :
    Groups n → Prop where
  | start : Rule2 minChunkSize groupOfFile first (startPass first).1
  | pass {groups : Groups n} (run : Rule2 minChunkSize groupOfFile first groups) :
      Rule2 minChunkSize groupOfFile first (startPass groups).1
  | fold {groups next : Groups n} {acyclic : Bool} {candidate target : Fin n}
      (run : Rule2 minChunkSize groupOfFile first groups)
      (isFold : tryFold minChunkSize groupOfFile groups candidate target =
        some (next, acyclic)) : Rule2 minChunkSize groupOfFile first next

/-! ### Before the second rule -/

/-- Groups that are loaded under identical conditions fold. -/
inductive Rule1 (first : Groups n) : Groups n → Prop where
  | start : Rule1 first first
  | fold {groups : Groups n} {member target : Fin n} (run : Rule1 first groups)
      (memberLive : (groups member).isLive = true) (targetLive : (groups target).isLive = true)
      (different : member ≠ target) : Rule1 first (fold groups member target)

def addDominated (dominated : ℕ → Finset ℕ) (groups : Groups n) : Groups n := fun g =>
  if (groups g).isLive then
    { groups g with loaded := (groups g).loaded ∪ (groups g).bits.biUnion dominated }
  else groups g

def coverImport (g : Fin n) (state : Groups n × Bool) (dep : Fin n) : Groups n × Bool :=
  let (groups, changed) := state
  if dep = g ∨ (groups g).loaded ⊆ (groups dep).loaded then (groups, changed)
  else
    (Function.update groups dep
      { groups dep with loaded := (groups dep).loaded ∪ (groups g).loaded }, true)

def coverImports (state : Groups n × Bool) (g : Fin n) : Groups n × Bool :=
  if (state.1 g).isLive then (importsOf state.1 g).foldl (coverImport g) state else state

def propagateOnce (groups : Groups n) : Groups n × Bool :=
  (List.finRange n).foldl coverImports (groups, false)

inductive Propagates : Groups n → Groups n → Prop where
  | done {groups : Groups n} (unchanged : (propagateOnce groups).2 = false) :
      Propagates groups (propagateOnce groups).1
  | again {groups final : Groups n} (changed : (propagateOnce groups).2 = true)
      (rest : Propagates (propagateOnce groups).1 final) : Propagates groups final

def importersOf (groups : Groups n) (d : Fin n) : List (Fin n) :=
  (List.finRange n).filter fun g => (groups g).isLive && d ≠ g && d ∈ importsOf groups g

def listImporters (groups : Groups n) : Groups n := fun d =>
  { groups d with importers := mergeSorted (groups d).importers (importersOf groups d) }

inductive Prepared (dominated : ℕ → Finset ℕ) (fresh : Groups n) : Groups n → Prop where
  | intro {folded propagated : Groups n} (run : Rule1 fresh folded)
      (isPropagated : Propagates (addDominated dominated folded) propagated) :
      Prepared dominated fresh (listImporters propagated)

/-! ### After a fold -/

def loadedAfter (groups : Groups n) (target : Fin n) (more : List (Fin n)) (g : Fin n) :
    Finset ℕ :=
  if g ∈ more then (groups g).loaded ∪ (groups target).loaded else (groups g).loaded

end Bun.Bundler
