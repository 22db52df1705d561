/-
The intrusive pairing heap of `heap.rs`.

`(*node).heap()` is a function from nodes to their links, and null is `none`.  A failed
assertion is `none`.  The loops over links have no bound of their own, so each takes fuel
and is `none` when that runs out.
-/

import Mathlib.Logic.Function.Basic
import Mathlib.Tactic.Common

set_option autoImplicit false

namespace Bun.Io

@[ext]
structure IntrusiveField (T : Type) where
  child : Option T
  prev : Option T
  next : Option T
deriving DecidableEq, Repr

def IntrusiveField.default {T : Type} : IntrusiveField T :=
  { child := none, prev := none, next := none }

abbrev Links (T : Type) := T → IntrusiveField T

namespace Links

variable {T : Type} [DecidableEq T]

def setChild (links : Links T) (node : T) (child : Option T) : Links T :=
  Function.update links node { links node with child := child }

def setPrev (links : Links T) (node : T) (prev : Option T) : Links T :=
  Function.update links node { links node with prev := prev }

def setNext (links : Links T) (node : T) (next : Option T) : Links T :=
  Function.update links node { links node with next := next }

/-- The branch of `meld` where `a` is less: `b` becomes the leftmost child of `a`. -/
def meldUnderFirst (links : Links T) (a b : T) : Links T :=
  let links := links.setPrev b (some a)
  -- `a` inherits the siblings of `b`
  let links :=
    match (links b).next with
    | none => links
    | some bNext => ((links.setNext a (some bNext)).setPrev bNext (some a)).setNext b none
  let links :=
    match (links a).child with
    | none => links
    | some aChild => (links.setNext b (some aChild)).setPrev aChild (some b)
  links.setChild a (some b)

/-- The other branch: `b` takes the place of `a`, which becomes its leftmost child. -/
def meldUnderSecond (links : Links T) (a b : T) : Links T :=
  let links := links.setPrev b (links a).prev
  let links := links.setPrev a (some b)
  let links :=
    match (links b).child with
    | none => links
    | some bChild => (links.setNext a (some bChild)).setPrev bChild (some a)
  links.setChild b (some a)

def meld (less : T → T → Bool) (links : Links T) (a b : T) : Option (Links T × T) :=
  if (links a).next = none then
    if less a b then some (links.meldUnderFirst a b, a)
    else some (links.meldUnderSecond a b, b)
  else none

def mergeRight (less : T → T → Bool) : Nat → Links T → T → Option (Links T × T)
  | 0, _, _ => none
  | fuel + 1, links, a =>
      match (links a).next with
      | none => some (links, a)
      | some b => do
          let (links, winner) ← (links.setNext a none).meld less a b
          match (links winner).next with
          | none => return (links, winner)
          | some nextA => mergeRight less fuel links nextA

def mergeLeft (less : T → T → Bool) : Nat → Links T → T → Option (Links T × T)
  | 0, _, _ => none
  | fuel + 1, links, root =>
      match (links root).prev with
      | none => some (links, root)
      | some b => do
          let (links, winner) ← (links.setNext b none).meld less b root
          mergeLeft less fuel links winner

def combineSiblings (less : T → T → Bool) (fuel : Nat) (links : Links T) (left : T) :
    Option (Links T × T) := do
  let (links, last) ← mergeRight less fuel (links.setPrev left none) left
  mergeLeft less fuel links last

end Links

structure Intrusive (T : Type) where
  root : Option T
  links : Links T

namespace Intrusive

variable {T : Type} [DecidableEq T]

/-- A heap before anything is inserted: every node has empty links. -/
def default : Intrusive T :=
  { root := none, links := fun _ => IntrusiveField.default }

def insert (less : T → T → Bool) (heap : Intrusive T) (v : T) : Option (Intrusive T) :=
  match heap.root with
  | none => some { heap with root := some v }
  | some root => do
      let (links, top) ← heap.links.meld less v root
      return { root := some top, links := links }

def peek (heap : Intrusive T) : Option T :=
  heap.root

def deleteMin (less : T → T → Bool) (fuel : Nat) (heap : Intrusive T) :
    Option (Option T × Intrusive T) :=
  match heap.root with
  | none => some (none, heap)
  | some root =>
      match (heap.links root).child with
      | none =>
          some (some root,
            { root := none, links := Function.update heap.links root IntrusiveField.default })
      | some child => do
          let (links, top) ← heap.links.combineSiblings less fuel child
          return (some root,
            { root := some top, links := Function.update links root IntrusiveField.default })

/-- The links around `v` closed over it, when it has a previous node. -/
def detach (links : Links T) (v prev : T) : Links T :=
  let vNext := (links v).next
  let links :=
    match vNext with
    | none => links
    | some next => links.setPrev next (some prev)
  let links :=
    if (links prev).child = some v then links.setChild prev vNext
    else links.setNext prev vNext
  (links.setPrev v none).setNext v none

def remove (less : T → T → Bool) (fuel : Nat) (heap : Intrusive T) (v : T) :
    Option (Intrusive T) :=
  match (heap.links v).prev with
  | none =>
      if heap.root = some v then (heap.deleteMin less fuel).map Prod.snd
      else none
  | some prev =>
      let links := detach heap.links v prev
      match (links v).child with
      | none => some { heap with links := links }
      | some child => do
          let (links, x) ← (links.setChild v none).combineSiblings less fuel child
          let root ← heap.root
          let (links, top) ← links.meld less x root
          return { root := some top, links := links }

/-- Where `for_each` stands: about to visit a node, to look at its `next`, or to climb from
it. -/
inductive WalkAt (T : Type) where
  | visit (node : T)
  | sideways (node : T)
  | climb (node : T)

def walk (links : Links T) : Nat → WalkAt T → Option (List T)
  | 0, _ => none
  | fuel + 1, .visit node =>
      match (links node).child with
      | some child => (walk links fuel (.visit child)).map (node :: ·)
      | none => (walk links fuel (.sideways node)).map (node :: ·)
  | fuel + 1, .sideways node =>
      match (links node).next with
      | some next => walk links fuel (.visit next)
      | none => walk links fuel (.climb node)
  | fuel + 1, .climb node =>
      match (links node).prev with
      | none => some []
      | some prev =>
          -- a left sibling is climbed past, a parent is left for its own `next`
          if (links prev).child = some node then walk links fuel (.sideways prev)
          else walk links fuel (.climb prev)

/-- The nodes in the order in which `for_each` calls back. -/
def forEach (fuel : Nat) (heap : Intrusive T) : Option (List T) :=
  match heap.root with
  | none => some []
  | some node => walk heap.links fuel (.visit node)

end Intrusive

end Bun.Io
