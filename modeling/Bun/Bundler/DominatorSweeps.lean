/-
The sweeps that find the immediate dominators.

The numbers tell which of two nodes may step up.  A visit folds this over the predecessors of a
node: the point it finds is on the chain of each of them, and no common dominator is lost.

Each visit keeps an approximation of the dominators and raises the level of its node.  A sweep
so raises the level of every node by one.  At a level that depends on the graph alone the
approximation is exact, and a further sweep changes nothing.
-/

import Bun.Bundler.DominatorNumbering
import Bun.Foundation.DominatorTree

set_option autoImplicit false

namespace Bun.Bundler

open Bun.Foundation Relation

variable {n : ℕ} {successors predecessors : Fin n → List (Fin n)} {root : Fin n}
variable {found : Postorder n} {idom : Fin n → Option (Fin n)}

def Postorder.number (found : Postorder n) (node : Fin n) : ℕ :=
  found.order.idxOf node

theorem Postorder.number_lt (found : Postorder n) (node : Fin n) :
    found.number node < found.order.length + 1 :=
  Nat.lt_succ_of_le List.idxOf_le_length

theorem Numbered.less_iff (numbering : Numbered successors root found) {a b : Fin n}
    (isFirst : a ∈ found.order) (isSecond : b ∈ found.order) :
    found.postorder a < found.postorder b ↔ found.number a < found.number b := by
  rw [numbering.numbered a isFirst, numbering.numbered b isSecond]
  exact WithTop.coe_lt_coe

theorem Numbered.number_inj (numbering : Numbered successors root found) {a b : Fin n}
    (isFirst : Reached (IsEdge successors) root a) (same : found.number a = found.number b) :
    a = b :=
  (List.idxOf_inj ((numbering.member_iff a).mpr isFirst)).mp same

abbrev Approximated (successors : Fin n → List (Fin n)) (root : Fin n) (found : Postorder n)
    (idom : Fin n → Option (Fin n)) : Prop :=
  Approximates (IsEdge successors) root found.number idom

theorem Numbered.member (numbering : Numbered successors root found)
    (approximates : Approximated successors root found idom) {node : Fin n}
    (isSome : (idom node).isSome = true) : node ∈ found.order := by
  obtain ⟨upper, isUpper⟩ := Option.isSome_iff_exists.mp isSome
  exact (numbering.member_iff node).mpr (approximates.reached node upper isUpper)

/-! ### The point where two chains meet -/

theorem climb_spec (approximates : Approximated successors root found idom)
    (numbering : Numbered successors root found) {a b : Fin n}
    (firstKnown : (idom a).isSome = true) (secondKnown : (idom b).isSome = true) {fuel : ℕ}
    (enough : found.order.length + 1 < fuel + found.number a) :
    ∃ top, climb found.postorder idom fuel a b = some top ∧ (idom top).isSome = true ∧
      found.number a ≤ found.number top ∧ found.number b ≤ found.number top ∧
      ∀ meeting, Meets (IsEdge successors) root idom top b meeting →
        Meets (IsEdge successors) root idom a b meeting := by
  induction fuel generalizing a with
  | zero =>
      have := found.number_lt a
      omega
  | succ fuel ih =>
      have less_iff := numbering.less_iff (numbering.member approximates firstKnown)
        (numbering.member approximates secondKnown)
      unfold climb
      by_cases lower : found.number a < found.number b
      · rw [if_pos (less_iff.mpr lower)]
        obtain ⟨up, isUp⟩ := Option.isSome_iff_exists.mp firstKnown
        rw [isUp]
        dsimp only
        have notRoot : a ≠ root := by
          rintro rfl
          have := approximates.number_le found.number_lt secondKnown (Dominates.of_root b)
          omega
        have climbs := approximates.climbs a up notRoot isUp
        obtain ⟨top, isTop, topKnown, aboveUp, aboveSecond, meets⟩ :=
          ih (approximates.defined a up isUp) (by omega)
        refine ⟨top, isTop, topKnown, by omega, aboveSecond, ?_⟩
        intro meeting isMeeting
        exact Meets.step approximates found.number_lt secondKnown lower isUp
          (meets meeting isMeeting)
      · rw [if_neg (mt less_iff.mp lower)]
        exact ⟨a, rfl, firstKnown, Nat.le_refl _, Nat.le_of_not_lt lower, fun _ meets => meets⟩

theorem intersect_meets (approximates : Approximated successors root found idom)
    (numbering : Numbered successors root found) {a b : Fin n}
    (firstKnown : (idom a).isSome = true) (secondKnown : (idom b).isSome = true) {fuel : ℕ}
    (enough : 2 * (found.order.length + 1) < fuel + found.number a + found.number b) :
    ∃ meeting, intersect found.postorder idom fuel a b = some meeting ∧
      Meets (IsEdge successors) root idom a b meeting := by
  induction fuel generalizing a b with
  | zero =>
      have := found.number_lt a
      have := found.number_lt b
      omega
  | succ fuel ih =>
      have firstBelow := found.number_lt a
      have secondBelow := found.number_lt b
      unfold intersect
      by_cases same : a = b
      · rw [if_pos same, ← same]
        exact ⟨a, rfl, Meets.self a⟩
      · rw [if_neg same]
        have differ : found.number a ≠ found.number b := by
          intro sameNumber
          have isReached := (numbering.member_iff a).mp (numbering.member approximates firstKnown)
          exact same (numbering.number_inj isReached sameNumber)
        obtain ⟨first, isFirst, knownFirst, aboveA, aboveB, meetsFirst⟩ :=
          climb_spec approximates numbering firstKnown secondKnown
            (show _ < fuel + found.number a by omega)
        obtain ⟨second, isSecond, knownSecond, stillAboveB, aboveFirst, meetsSecond⟩ :=
          climb_spec approximates numbering secondKnown knownFirst
            (show _ < fuel + found.number b by omega)
        rw [isFirst]
        dsimp only
        rw [isSecond]
        dsimp only
        obtain ⟨meeting, isMeeting, meets⟩ := ih knownFirst knownSecond (by omega)
        exact ⟨meeting, isMeeting, meetsFirst meeting (meetsSecond meeting meets.symm).symm⟩

/-! ### The chains in front of a node -/

/-- A point that all chains from the nodes of a list go through, as low as the common dominators
of these nodes allow. -/
structure Joins (successors : Fin n → List (Fin n)) (root : Fin n)
    (idom : Fin n → Option (Fin n)) (seen : List (Fin n)) (point : Fin n) : Prop where
  known : (idom point).isSome = true
  above : ∀ pred ∈ seen, (idom pred).isSome = true → Above idom pred point
  dominated : ∀ other, (∀ pred ∈ seen, (idom pred).isSome = true →
    Dominates (IsEdge successors) root other pred) →
      Dominates (IsEdge successors) root other point

/-- What `new_idom` is after some predecessors. -/
def Joined (successors : Fin n → List (Fin n)) (root : Fin n) (idom : Fin n → Option (Fin n))
    (seen : List (Fin n)) : Option (Fin n) → Prop
  | none => ∀ pred ∈ seen, idom pred = none
  | some point => Joins successors root idom seen point

/-- Whether a predecessor is among those seen is only asked of those that have a dominator. -/
theorem Joined.skip {seen : List (Fin n)} {pred : Fin n} {newIdom : Option (Fin n)}
    (joined : Joined successors root idom seen newIdom) (unknown : idom pred = none) :
    Joined successors root idom (seen ++ [pred]) newIdom := by
  have cases (other : Fin n) (member : other ∈ seen ++ [pred]) :
      other ∈ seen ∨ idom other = none := by
    rcases List.mem_append.mp member with isSeen | isLast
    · exact Or.inl isSeen
    · rw [List.mem_singleton.mp isLast]
      exact Or.inr unknown
  cases newIdom with
  | none =>
      intro other member
      rcases cases other member with isSeen | isNone
      · exact joined other isSeen
      · exact isNone
  | some point =>
      refine ⟨joined.known, ?_, ?_⟩
      · intro other member isSome
        rcases cases other member with isSeen | isNone
        · exact joined.above other isSeen isSome
        · rw [isNone] at isSome
          nomatch isSome
      · intro other dominates
        exact joined.dominated other fun pred isSeen =>
          dominates pred (List.mem_append_left _ isSeen)

theorem meetPredecessor_joined (approximates : Approximated successors root found idom)
    (numbering : Numbered successors root found) {fuel : ℕ}
    (enough : 2 * (found.order.length + 1) < fuel) {seen : List (Fin n)} (pred : Fin n)
    {newIdom : Option (Fin n)} (joined : Joined successors root idom seen newIdom) :
    ∃ next, meetPredecessor found.postorder idom fuel newIdom pred = some next ∧
      Joined successors root idom (seen ++ [pred]) next := by
  unfold meetPredecessor
  by_cases unknown : idom pred = none
  · rw [if_pos unknown]
    exact ⟨newIdom, rfl, joined.skip unknown⟩
  · rw [if_neg unknown]
    have known : (idom pred).isSome = true := Option.isSome_iff_ne_none.mpr unknown
    have last : pred ∈ seen ++ [pred] := List.mem_append_right _ (List.mem_singleton_self _)
    cases newIdom with
    | none =>
        refine ⟨some pred, rfl, known, ?_, fun other dominates => dominates pred last known⟩
        intro other member isSome
        rcases List.mem_append.mp member with isSeen | isLast
        · rw [joined other isSeen] at isSome
          nomatch isSome
        · rw [List.mem_singleton.mp isLast]
          exact ReflTransGen.refl
    | some point =>
        obtain ⟨meeting, isMeeting, meets⟩ :=
          intersect_meets approximates numbering known joined.known
            (show _ < fuel + found.number pred + found.number point by omega)
        dsimp only
        rw [isMeeting]
        refine ⟨some meeting, rfl, approximates.above_defined known meets.aboveFirst, ?_, ?_⟩
        · intro other member isSome
          rcases List.mem_append.mp member with isSeen | isLast
          · exact (joined.above other isSeen isSome).trans meets.aboveSecond
          · rw [List.mem_singleton.mp isLast]
            exact meets.aboveFirst
        · intro other dominates
          exact meets.dominated other (dominates pred last known)
            (joined.dominated other fun pred isSeen =>
              dominates pred (List.mem_append_left _ isSeen))

theorem predecessors_joined (approximates : Approximated successors root found idom)
    (numbering : Numbered successors root found) {fuel : ℕ}
    (enough : 2 * (found.order.length + 1) < fuel) (rest : List (Fin n)) {seen : List (Fin n)}
    {newIdom : Option (Fin n)} (joined : Joined successors root idom seen newIdom) :
    ∃ last, rest.foldlM (meetPredecessor found.postorder idom fuel) newIdom = some last ∧
      Joined successors root idom (seen ++ rest) last := by
  induction rest generalizing seen newIdom with
  | nil =>
      rw [List.append_nil]
      exact ⟨newIdom, rfl, joined⟩
  | cons pred rest ih =>
      obtain ⟨next, isNext, joinedNext⟩ :=
        meetPredecessor_joined approximates numbering enough pred joined
      obtain ⟨last, isLast, joinedLast⟩ := ih joinedNext
      rw [List.append_assoc] at joinedLast
      refine ⟨last, ?_, joinedLast⟩
      rw [List.foldlM_cons, isNext]
      exact isLast

/-- The lists of successors and predecessors describe one graph.  The predecessors of the root
are never asked for. -/
def SameEdges (successors predecessors : Fin n → List (Fin n)) (root : Fin n) : Prop :=
  ∀ before node, node ≠ root → (node ∈ successors before ↔ before ∈ predecessors node)

/-- The state of a sweep that has visited the nodes from a number on. -/
structure Swept (successors : Fin n → List (Fin n)) (root : Fin n) (found : Postorder n)
    (level visited : ℕ) (idom : Fin n → Option (Fin n)) : Prop where
  approximates : Approximated successors root found idom
  follows : Follows (IsEdge successors) root found.number idom
    fun node => if visited ≤ found.number node then level + 1 else level
  known : ∀ node, Reached (IsEdge successors) root node →
    1 ≤ level ∨ visited ≤ found.number node → (idom node).isSome = true

structure Improves (successors : Fin n → List (Fin n)) (root : Fin n) (found : Postorder n)
    (idom : Fin n → Option (Fin n)) (node point : Fin n) : Prop where
  known : (idom point).isSome = true
  higher : found.number node < found.number point
  above : ∀ before, IsEdge successors before node → (idom before).isSome = true →
    Above idom before point
  dominated : ∀ other, other ≠ node → Dominates (IsEdge successors) root other node →
    Dominates (IsEdge successors) root other point

theorem exists_improves {level : ℕ} {node : Fin n} (same : SameEdges successors predecessors root)
    (numbering : Numbered successors root found) (notRoot : node ≠ root)
    (isReached : Reached (IsEdge successors) root node)
    (swept : Swept successors root found level (found.number node + 1) idom) {fuel : ℕ}
    (enough : 2 * (found.order.length + 1) < fuel) :
    ∃ point, (predecessors node).foldlM (meetPredecessor found.postorder idom fuel) none =
        some (some point) ∧ Improves successors root found idom node point := by
  have approximates := swept.approximates
  obtain ⟨last, isLast, joined⟩ := predecessors_joined approximates numbering enough
    (predecessors node) (show Joined successors root idom [] none from nofun)
  rw [List.nil_append] at joined
  have isMember := (numbering.member_iff node).mpr isReached
  -- One of the predecessors has been visited before.
  obtain ⟨before, isBefore, isEdge, later⟩ :=
    numbering.led.exists_later numbering.distinct isMember notRoot
  have knownBefore := swept.known before ((numbering.member_iff before).mp isBefore)
    (Or.inr (show found.number node + 1 ≤ found.number before from later))
  have isPredecessor := (same before node notRoot).mp isEdge
  cases last with
  | none =>
      have unknown : idom before = none := joined before isPredecessor
      rw [unknown] at knownBefore
      nomatch knownBefore
  | some point =>
      refine ⟨point, isLast, joined.known, ?_, ?_, ?_⟩
      · have := approximates.above_number_le (joined.above before isPredecessor knownBefore)
        exact Nat.lt_of_lt_of_le later this
      · intro other isOther known
        exact joined.above other ((same other node notRoot).mp isOther) known
      · intro other strict dominates
        refine joined.dominated other ?_
        intro pred isPred _
        exact dominates.before strict ((same pred node notRoot).mpr isPred)

theorem Improves.approximates {node point : Fin n} (approximates : Approximated successors root
    found idom) (notRoot : node ≠ root) (isReached : Reached (IsEdge successors) root node)
    (improves : Improves successors root found idom node point) :
    Approximated successors root found (Function.update idom node (some point)) where
  atRoot := by
    rw [Function.update_of_ne (Ne.symm notRoot)]
    exact approximates.atRoot
  reached := by
    intro other upper isUpper
    by_cases same : other = node
    · rw [same]
      exact isReached
    · rw [Function.update_of_ne same] at isUpper
      exact approximates.reached other upper isUpper
  defined := by
    intro other upper isUpper
    by_cases isNode : upper = node
    · rw [isNode, Function.update_self]
      rfl
    · rw [Function.update_of_ne isNode]
      by_cases same : other = node
      · rw [same, Function.update_self] at isUpper
        exact Option.some.inj isUpper ▸ improves.known
      · rw [Function.update_of_ne same] at isUpper
        exact approximates.defined other upper isUpper
  climbs := by
    intro other upper otherRoot isUpper
    by_cases same : other = node
    · rw [same, Function.update_self] at isUpper
      rw [same, ← Option.some.inj isUpper]
      exact improves.higher
    · rw [Function.update_of_ne same] at isUpper
      exact approximates.climbs other upper otherRoot isUpper
  keeps := by
    intro other upper otherRoot isUpper
    by_cases same : other = node
    · rw [same, Function.update_self] at isUpper
      rw [same, ← Option.some.inj isUpper]
      exact improves.dominated
    · rw [Function.update_of_ne same] at isUpper
      exact approximates.keeps other upper otherRoot isUpper

theorem Improves.swept {level : ℕ} {node point : Fin n}
    (numbering : Numbered successors root found) (notRoot : node ≠ root)
    (isReached : Reached (IsEdge successors) root node)
    (swept : Swept successors root found level (found.number node + 1) idom)
    (improves : Improves successors root found idom node point) :
    Swept successors root found level (found.number node)
      (Function.update idom node (some point)) where
  approximates := improves.approximates swept.approximates notRoot isReached
  follows := by
    have raised : Follows (IsEdge successors) root found.number
        (Function.update idom node (some point)) (Function.update _ node (level + 1)) :=
      swept.follows.update notRoot
      (by
        intro other
        split <;> omega)
      (by
        intro before isEdge beforeReached
        cases isKnown : idom before with
        | some upper =>
            left
            intro last above
            exact (improves.above before isEdge (by rw [isKnown]; rfl)).trans above
        | none =>
            right
            have notKnown : ¬ (1 ≤ level ∨ found.number node + 1 ≤ found.number before) := by
              intro visited
              have isSome := swept.known before beforeReached visited
              rw [isKnown] at isSome
              nomatch isSome
            omega)
      (by
        intro before isEdge beforeReached
        split
        · omega
        · split <;> omega)
    intro start nodes walk few
    refine raised start nodes walk (Nat.lt_of_lt_of_le few ?_)
    have isMember := (numbering.member_iff start).mpr ⟨nodes, walk⟩
    by_cases same : start = node
    · rw [same, Function.update_self]
      dsimp only
      split <;> omega
    · rw [Function.update_of_ne same]
      have differ : found.number start ≠ found.number node := fun sameNumber =>
        same (numbering.number_inj ⟨nodes, walk⟩ sameNumber)
      dsimp only
      by_cases visited : found.number node ≤ found.number start
      · rw [if_pos visited, if_pos (by omega)]
      · rw [if_neg visited, if_neg (by omega)]
  known := by
    intro other otherReached visited
    by_cases same : other = node
    · rw [same, Function.update_self]
      rfl
    · rw [Function.update_of_ne same]
      have differ : found.number other ≠ found.number node := fun sameNumber =>
        same (numbering.number_inj otherReached sameNumber)
      exact swept.known other otherReached (by omega)

def ExactFrom (successors : Fin n → List (Fin n)) (root : Fin n) (found : Postorder n)
    (enough : ℕ) : Prop :=
  ∀ idom, ∀ level : Fin n → ℕ, (∀ node, enough ≤ level node) →
    Follows (IsEdge successors) root found.number idom level → Exact (IsEdge successors) root idom

theorem Swept.exact {level visited enough : ℕ} (exactFrom : ExactFrom successors root found enough)
    (isEnough : enough ≤ level) (swept : Swept successors root found level visited idom) :
    Exact (IsEdge successors) root idom := by
  refine exactFrom idom _ ?_ swept.follows
  intro node
  split <;> omega

theorem visit_swept {level exactLevel : ℕ} {node : Fin n} {sweep : Sweep n}
    (same : SameEdges successors predecessors root) (numbering : Numbered successors root found)
    (exactFrom : ExactFrom successors root found exactLevel) (positive : 1 ≤ exactLevel)
    (notRoot : node ≠ root) (isReached : Reached (IsEdge successors) root node)
    (swept : Swept successors root found level (found.number node + 1) sweep.idom) {fuel : ℕ}
    (enough : 2 * (found.order.length + 1) < fuel) :
    ∃ next, visit found.postorder predecessors fuel sweep node = some next ∧
      Swept successors root found level (found.number node) next.idom ∧
      (next.changed = false → sweep.changed = false ∧ next.idom = sweep.idom) ∧
      (exactLevel ≤ level → next = sweep) := by
  obtain ⟨point, isPoint, improves⟩ :=
    exists_improves same numbering notRoot isReached swept enough
  have sweptNext := improves.swept numbering notRoot isReached swept
  unfold visit
  rw [isPoint]
  dsimp only
  by_cases differs : sweep.idom node ≠ some point
  · rw [if_pos differs]
    refine ⟨_, rfl, sweptNext, nofun, ?_⟩
    intro isExact
    have known := swept.known node isReached (Or.inl (by omega))
    obtain ⟨upper, isUpper⟩ := Option.isSome_iff_exists.mp known
    have sameUpper : upper = point :=
      Approximates.same_of_exact swept.approximates sweptNext.approximates found.number_lt
        (fun a b isFirst _ sameNumber => numbering.number_inj isFirst sameNumber)
        (swept.exact exactFrom isExact) (sweptNext.exact exactFrom isExact) notRoot isUpper
        (Function.update_self ..)
    exact absurd (sameUpper ▸ isUpper) differs
  · rw [if_neg differs]
    have isSame : sweep.idom node = some point := not_not.mp differs
    have unchanged : Function.update sweep.idom node (some point) = sweep.idom := by
      rw [← isSame, Function.update_eq_self]
    rw [unchanged] at sweptNext
    exact ⟨sweep, rfl, sweptNext, fun isFalse => ⟨isFalse, rfl⟩, fun _ => rfl⟩

/-- A sweep goes from the highest number below the root's to the lowest. -/
theorem visits_swept {level exactLevel : ℕ} (same : SameEdges successors predecessors root)
    (numbering : Numbered successors root found)
    (exactFrom : ExactFrom successors root found exactLevel) (positive : 1 ≤ exactLevel) {fuel : ℕ}
    (enough : 2 * (found.order.length + 1) < fuel) (front back : List (Fin n))
    (isOrder : found.order = front ++ back) (rootBehind : root ∈ back) {sweep : Sweep n}
    (swept : Swept successors root found level front.length sweep.idom) :
    ∃ last, front.reverse.foldlM (visit found.postorder predecessors fuel) sweep = some last ∧
      Swept successors root found level 0 last.idom ∧
      (last.changed = false → sweep.changed = false ∧ last.idom = sweep.idom) ∧
      (exactLevel ≤ level → last = sweep) := by
  induction front using List.reverseRecOn generalizing back sweep with
  | nil => exact ⟨sweep, rfl, swept, fun isFalse => ⟨isFalse, rfl⟩, fun _ => rfl⟩
  | append_singleton front node ih =>
      rw [List.append_assoc, List.singleton_append] at isOrder
      have distinct := numbering.distinct
      rw [isOrder] at distinct
      have notFront : node ∉ front := fun member =>
        (List.nodup_append.mp distinct).2.2 node member node List.mem_cons_self rfl
      have isNumber : found.number node = front.length := by
        unfold Postorder.number
        rw [isOrder, List.idxOf_append_of_notMem notFront, List.idxOf_cons_self, Nat.add_zero]
      have notRoot : node ≠ root := by
        rintro rfl
        exact (List.nodup_cons.mp (List.nodup_append.mp distinct).2.1).1 rootBehind
      have isReached : Reached (IsEdge successors) root node := by
        refine (numbering.member_iff node).mp ?_
        rw [isOrder]
        exact List.mem_append_right _ List.mem_cons_self
      rw [List.length_append, List.length_singleton, ← isNumber] at swept
      obtain ⟨next, isNext, sweptNext, unchangedNext, sameNext⟩ :=
        visit_swept same numbering exactFrom positive notRoot isReached swept enough
      rw [isNumber] at sweptNext
      obtain ⟨last, isLast, sweptLast, unchangedLast, sameLast⟩ :=
        ih (node :: back) isOrder (List.mem_cons_of_mem _ rootBehind) sweptNext
      refine ⟨last, ?_, sweptLast, ?_, ?_⟩
      · rw [List.reverse_append, List.reverse_singleton, List.singleton_append, List.foldlM_cons,
          isNext]
        exact isLast
      · intro isFalse
        obtain ⟨nextFalse, lastSame⟩ := unchangedLast isFalse
        obtain ⟨wasFalse, nextSame⟩ := unchangedNext nextFalse
        exact ⟨wasFalse, lastSame.trans nextSame⟩
      · intro isExact
        exact (sameLast isExact).trans (sameNext isExact)

end Bun.Bundler
