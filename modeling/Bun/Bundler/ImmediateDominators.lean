/-
The immediate dominators of a graph.

A depth first search numbers the nodes when it leaves them.  The nodes are then visited in the
opposite order, again and again, until no visit changes anything; a visit gives a node the point
where the chains of its predecessors meet.

The loops that look for such a point have a bound on their rounds.  A result of `none` says that
the bound was too low, or that a chain led to a node without an immediate dominator.
-/

import Mathlib.Algebra.GroupWithZero.Nat
import Mathlib.Algebra.Order.Ring.WithTop
import Mathlib.Data.Finset.Card
import Mathlib.Data.Fintype.Card
import Mathlib.Algebra.Order.BigOperators.Group.Finset
import Mathlib.Algebra.Order.Monoid.Unbundled.WithTop
import Mathlib.Data.Nat.Notation

set_option autoImplicit false

namespace Bun.Bundler

variable {n : ℕ}

/-- The state of the search.  The number of a node is `⊤` (`UNREACHED`) until the search comes to
it, and not final before the search leaves it. -/
structure Postorder (n : ℕ) where
  postorder : Fin n → WithTop ℕ
  order : List (Fin n)
  stack : List (Fin n × ℕ)

namespace Postorder

def initial (root : Fin n) : Postorder n where
  postorder := Function.update (fun _ => ⊤) root ((0 : ℕ) : WithTop ℕ)
  order := []
  stack := [(root, 0)]

/-- What a round does with the last frame of the stack. -/
def round (successors : Fin n → List (Fin n)) (state : Postorder n) (node : Fin n) (next : ℕ)
    (rest : List (Fin n × ℕ)) : Postorder n :=
  match (successors node)[next]? with
  | some succ =>
      if state.postorder succ = ⊤ then
        { state with
          postorder := Function.update state.postorder succ ((0 : ℕ) : WithTop ℕ)
          stack := (succ, 0) :: (node, next + 1) :: rest }
      else { state with stack := (node, next + 1) :: rest }
  | none =>
      { postorder := Function.update state.postorder node (state.order.length : WithTop ℕ)
        order := state.order ++ [node]
        stack := rest }

def unmarked (state : Postorder n) : Finset (Fin n) :=
  Finset.univ.filter fun node => state.postorder node = ⊤

/-- What is left to do: the frames of the stack with the successors that they have not looked at,
and the frames and successors of the nodes that have no frame yet. -/
def work (successors : Fin n → List (Fin n)) (state : Postorder n) : ℕ :=
  (state.stack.map fun frame => (successors frame.1).length - frame.2 + 1).sum +
    ∑ node ∈ state.unmarked, ((successors node).length + 1)

theorem unmarked_update (postorder : Fin n → WithTop ℕ) (order : List (Fin n))
    (stack : List (Fin n × ℕ)) (node : Fin n) (number : ℕ) :
    unmarked ⟨Function.update postorder node (number : WithTop ℕ), order, stack⟩ =
      (unmarked ⟨postorder, order, stack⟩).erase node := by
  ext other
  unfold unmarked
  rw [Finset.mem_erase, Finset.mem_filter, Finset.mem_filter]
  dsimp only
  by_cases same : other = node
  · rw [same, Function.update_self]
    simp
  · rw [Function.update_of_ne same]
    simp [same]

theorem round_less (successors : Fin n → List (Fin n)) {state : Postorder n} {node : Fin n}
    {next : ℕ} {rest : List (Fin n × ℕ)} (isStack : state.stack = (node, next) :: rest) :
    (round successors state node next rest).work successors < state.work successors := by
  unfold round
  cases isNext : (successors node)[next]? with
  | some succ =>
      have inside : next < (successors node).length := (List.getElem?_eq_some_iff.mp isNext).1
      dsimp only
      by_cases isNew : state.postorder succ = ⊤
      · rw [if_pos isNew]
        have isUnmarked : succ ∈ state.unmarked :=
          Finset.mem_filter.mpr ⟨Finset.mem_univ _, isNew⟩
        have moved := Finset.add_sum_erase state.unmarked
          (fun other => (successors other).length + 1) isUnmarked
        unfold work
        rw [unmarked_update, isStack, ← moved]
        simp only [List.map_cons, List.sum_cons]
        have sameMarks : unmarked ⟨state.postorder, state.order,
            (succ, 0) :: (node, next + 1) :: rest⟩ = state.unmarked := rfl
        rw [sameMarks]
        omega
      · rw [if_neg isNew]
        have sameMarks : unmarked ⟨state.postorder, state.order, (node, next + 1) :: rest⟩ =
            state.unmarked := rfl
        unfold work
        rw [sameMarks, isStack]
        simp only [List.map_cons, List.sum_cons]
        omega
  | none =>
      have fewer : ∑ other ∈ state.unmarked.erase node, ((successors other).length + 1) ≤
          ∑ other ∈ state.unmarked, ((successors other).length + 1) :=
        Finset.sum_le_sum_of_subset (Finset.erase_subset _ _)
      have sameMarks : unmarked ⟨state.postorder, state.order ++ [node], rest⟩ =
          state.unmarked := rfl
      unfold work
      dsimp only
      rw [unmarked_update, sameMarks, isStack]
      simp only [List.map_cons, List.sum_cons]
      omega

def search (successors : Fin n → List (Fin n)) (state : Postorder n) : Postorder n :=
  match isStack : state.stack with
  | [] => state
  | (node, next) :: rest => search successors (round successors state node next rest)
termination_by state.work successors
decreasing_by exact round_less successors isStack

end Postorder

def climb (postorder : Fin n → WithTop ℕ) (idom : Fin n → Option (Fin n)) :
    ℕ → Fin n → Fin n → Option (Fin n)
  | 0, _, _ => none
  | fuel + 1, a, b =>
      if postorder a < postorder b then
        match idom a with
        | none => none
        | some up => climb postorder idom fuel up b
      else some a

def intersect (postorder : Fin n → WithTop ℕ) (idom : Fin n → Option (Fin n)) :
    ℕ → Fin n → Fin n → Option (Fin n)
  | 0, _, _ => none
  | fuel + 1, a, b =>
      if a = b then some a
      else
        match climb postorder idom fuel a b with
        | none => none
        | some first =>
            match climb postorder idom fuel b first with
            | none => none
            | some second => intersect postorder idom fuel first second

def meetPredecessor (postorder : Fin n → WithTop ℕ) (idom : Fin n → Option (Fin n)) (fuel : ℕ)
    (newIdom : Option (Fin n)) (pred : Fin n) : Option (Option (Fin n)) :=
  if idom pred = none then some newIdom
  else
    match newIdom with
    | none => some (some pred)
    | some other =>
        match intersect postorder idom fuel pred other with
        | none => none
        | some meeting => some (some meeting)

/-- `idom` and `changed`, as the visits of a sweep leave them. -/
structure Sweep (n : ℕ) where
  idom : Fin n → Option (Fin n)
  changed : Bool

def visit (postorder : Fin n → WithTop ℕ) (predecessors : Fin n → List (Fin n)) (fuel : ℕ)
    (sweep : Sweep n) (node : Fin n) : Option (Sweep n) :=
  match (predecessors node).foldlM (meetPredecessor postorder sweep.idom fuel) none with
  | none => none
  | some newIdom =>
      if sweep.idom node ≠ newIdom then
        some { idom := Function.update sweep.idom node newIdom, changed := true }
      else some sweep

/-- `while changed { … }`; the root comes last in the order and is skipped. -/
def settle (found : Postorder n) (predecessors : Fin n → List (Fin n)) (fuel : ℕ) :
    ℕ → (Fin n → Option (Fin n)) → Option (Fin n → Option (Fin n))
  | 0, _ => none
  | rounds + 1, idom =>
      match (found.order.reverse.drop 1).foldlM (visit found.postorder predecessors fuel)
        { idom := idom, changed := false } with
      | none => none
      | some sweep =>
          if sweep.changed then settle found predecessors fuel rounds sweep.idom
          else some sweep.idom

def immediateDominators (fuel : ℕ) (successors : Fin n → List (Fin n)) (root : Fin n)
    (predecessors : Fin n → List (Fin n)) : Option (Fin n → Option (Fin n)) :=
  settle (Postorder.search successors (Postorder.initial root)) predecessors fuel fuel
    (Function.update (fun _ => none) root (some root))

end Bun.Bundler
