/-
The numbering that the search for dominators finds.

The finished nodes, followed by the nodes of the stack, are a list in which every node but the
root has a predecessor behind it.  Finishing a node leaves this list as it is, and a new node
comes right in front of the stack.
-/

import Bun.Bundler.ImmediateDominators
import Bun.Foundation.Dominators

set_option autoImplicit false

namespace Bun.Bundler

open Bun.Foundation

variable {n : ℕ} {successors : Fin n → List (Fin n)} {root : Fin n}

def IsEdge (successors : Fin n → List (Fin n)) (before node : Fin n) : Prop :=
  node ∈ successors before

inductive Led (successors : Fin n → List (Fin n)) (root : Fin n) : List (Fin n) → Prop
  | last : Led successors root [root]
  | cons {node before : Fin n} {behind : List (Fin n)} (member : before ∈ behind)
      (isEdge : IsEdge successors before node) (led : Led successors root behind) :
      Led successors root (node :: behind)

namespace Led

theorem reached {nodes : List (Fin n)} (led : Led successors root nodes) {node : Fin n}
    (member : node ∈ nodes) : Reached (IsEdge successors) root node := by
  induction led generalizing node with
  | last =>
      rw [List.mem_singleton.mp member]
      exact reached_root
  | cons isBehind isEdge _ ih =>
      rcases List.mem_cons.mp member with rfl | inRest
      · exact (ih isBehind).step isEdge
      · exact ih inRest

theorem insert {before node : Fin n} {behind : List (Fin n)} (member : before ∈ behind)
    (isEdge : IsEdge successors before node) {front : List (Fin n)} (notEmpty : behind ≠ [])
    (led : Led successors root (front ++ behind)) :
    Led successors root (front ++ node :: behind) := by
  induction front with
  | nil => exact Led.cons member isEdge led
  | cons first front ih =>
      cases isRest : front ++ behind with
      | nil => exact absurd (List.append_eq_nil_iff.mp isRest).2 notEmpty
      | cons second rest =>
          rw [List.cons_append, isRest] at led
          cases led with
          | @cons _ other _ isBehind isFirst led =>
              rw [← isRest] at isBehind led
              have stillBehind : other ∈ front ++ node :: behind := by
                rcases List.mem_append.mp isBehind with inFront | isLast
                · exact List.mem_append_left _ inFront
                · exact List.mem_append_right _ (List.mem_cons_of_mem _ isLast)
              exact Led.cons stillBehind isFirst (ih led)

theorem root_mem {nodes : List (Fin n)} (led : Led successors root nodes) : root ∈ nodes := by
  induction led with
  | last => exact List.mem_singleton_self _
  | cons _ _ _ ih => exact List.mem_cons_of_mem _ ih

theorem eq_append_root {nodes : List (Fin n)} (led : Led successors root nodes) :
    ∃ front, nodes = front ++ [root] := by
  induction led with
  | last => exact ⟨[], rfl⟩
  | @cons node _ _ _ _ _ ih =>
      obtain ⟨front, rfl⟩ := ih
      exact ⟨node :: front, rfl⟩

theorem exists_later {nodes : List (Fin n)} (led : Led successors root nodes)
    (distinct : nodes.Nodup) {node : Fin n} (member : node ∈ nodes) (other : node ≠ root) :
    ∃ before ∈ nodes, IsEdge successors before node ∧
      nodes.idxOf node < nodes.idxOf before := by
  induction led with
  | last => exact absurd (List.mem_singleton.mp member) other
  | @cons first before behind isBehind isEdge _ ih =>
      obtain ⟨notBehind, distinct⟩ := List.nodup_cons.mp distinct
      rcases List.mem_cons.mp member with rfl | inRest
      · have isOther : node ≠ before := fun same => notBehind (same ▸ isBehind)
        refine ⟨before, List.mem_cons_of_mem _ isBehind, isEdge, ?_⟩
        rw [List.idxOf_cons_self, List.idxOf_cons_ne _ isOther]
        exact Nat.succ_pos _
      · obtain ⟨later, isLater, isEdge, rises⟩ := ih distinct inRest
        have firstOther : first ≠ node := fun same => notBehind (same ▸ inRest)
        have firstLater : first ≠ later := fun same => notBehind (same ▸ isLater)
        refine ⟨later, List.mem_cons_of_mem _ isLater, isEdge, ?_⟩
        rw [List.idxOf_cons_ne _ firstOther, List.idxOf_cons_ne _ firstLater]
        exact Nat.succ_lt_succ rises

end Led

namespace Postorder

/-- The finished nodes, then the nodes of the stack, the last frame first. -/
def sequence (state : Postorder n) : List (Fin n) :=
  state.order ++ state.stack.map Prod.fst

structure Holds (successors : Fin n → List (Fin n)) (root : Fin n) (state : Postorder n) : Prop where
  distinct : state.sequence.Nodup
  marked : ∀ node, state.postorder node ≠ ⊤ ↔ node ∈ state.sequence
  led : Led successors root state.sequence
  numbered : ∀ node ∈ state.order, state.postorder node = (state.order.idxOf node : WithTop ℕ)
  finished : ∀ node ∈ state.order, ∀ succ ∈ successors node, succ ∈ state.sequence
  scanned : ∀ frame ∈ state.stack, ∀ succ ∈ (successors frame.1).take frame.2,
    succ ∈ state.sequence

theorem initial_holds (successors : Fin n → List (Fin n)) (root : Fin n) :
    (initial root).Holds successors root where
  distinct := List.nodup_singleton root
  marked := by
    intro node
    by_cases same : node = root
    · subst same
      simp [initial, sequence]
    · simp [initial, sequence, same]
  led := Led.last
  numbered := nofun
  finished := nofun
  scanned := by
    intro frame member
    rw [List.mem_singleton.mp member]
    nofun

theorem round_holds {state : Postorder n} {node : Fin n} {next : ℕ} {rest : List (Fin n × ℕ)}
    (holds : state.Holds successors root) (isStack : state.stack = (node, next) :: rest) :
    (round successors state node next rest).Holds successors root := by
  have isSequence : state.sequence = state.order ++ node :: rest.map Prod.fst := by
    rw [sequence, isStack]
    rfl
  have frameMember : (node, next) ∈ state.stack := by
    rw [isStack]
    exact List.mem_cons_self
  have restMember : ∀ frame ∈ rest, frame ∈ state.stack := by
    intro frame member
    rw [isStack]
    exact List.mem_cons_of_mem _ member
  unfold round
  cases isNext : (successors node)[next]? with
  | some succ =>
      have isEdge : IsEdge successors node succ := List.mem_of_getElem? isNext
      have taken : (successors node).take (next + 1) = (successors node).take next ++ [succ] := by
        rw [List.take_add_one, isNext]
        rfl
      dsimp only
      by_cases isNew : state.postorder succ = ⊤
      · -- The new node comes between the finished ones and the stack.
        rw [if_pos isNew]
        have notMember : succ ∉ state.sequence := fun member => (holds.marked succ).mpr member isNew
        have member_iff (other : Fin n) : other ∈ state.order ++ succ :: node :: rest.map Prod.fst ↔
            other = succ ∨ other ∈ state.sequence := by
          rw [isSequence]
          simp only [List.mem_append, List.mem_cons]
          tauto
        have isLed := holds.led
        have isDistinct := holds.distinct
        rw [isSequence] at isLed isDistinct notMember
        refine ⟨?_, ?_, ?_, ?_, ?_, ?_⟩
        · show (state.order ++ succ :: node :: rest.map Prod.fst).Nodup
          exact List.nodup_middle.mpr (List.nodup_cons.mpr ⟨notMember, isDistinct⟩)
        · intro other
          refine Iff.trans ?_ (member_iff other).symm
          dsimp only
          by_cases same : other = succ
          · rw [same, Function.update_self]
            simp
          · rw [Function.update_of_ne same, holds.marked]
            simp [same]
        · exact Led.insert List.mem_cons_self isEdge (List.cons_ne_nil _ _) isLed
        · intro other member
          have isOther : other ≠ succ := fun same =>
            notMember (same ▸ List.mem_append_left _ member)
          dsimp only
          rw [Function.update_of_ne isOther]
          exact holds.numbered other member
        · intro other member later isSucc
          exact (member_iff later).mpr (Or.inr (holds.finished other member later isSucc))
        · intro frame member later isSucc
          refine (member_iff later).mpr ?_
          rcases List.mem_cons.mp member with rfl | member
          · nomatch isSucc
          · rcases List.mem_cons.mp member with rfl | member
            · rw [taken, List.mem_append, List.mem_singleton] at isSucc
              rcases isSucc with isEarlier | rfl
              · exact Or.inr (holds.scanned _ frameMember later isEarlier)
              · exact Or.inl rfl
            · exact Or.inr (holds.scanned frame (restMember frame member) later isSucc)
      · rw [if_neg isNew]
        have isMember : succ ∈ state.sequence := (holds.marked succ).mp isNew
        have same : state.sequence = state.order ++ node :: rest.map Prod.fst := isSequence
        refine ⟨?_, ?_, ?_, holds.numbered, ?_, ?_⟩
        · show (state.order ++ node :: rest.map Prod.fst).Nodup
          exact same ▸ holds.distinct
        · intro other
          show state.postorder other ≠ ⊤ ↔ other ∈ state.order ++ node :: rest.map Prod.fst
          exact same ▸ holds.marked other
        · show Led successors root (state.order ++ node :: rest.map Prod.fst)
          exact same ▸ holds.led
        · intro other member later isSucc
          show later ∈ state.order ++ node :: rest.map Prod.fst
          exact same ▸ holds.finished other member later isSucc
        · intro frame member later isSucc
          show later ∈ state.order ++ node :: rest.map Prod.fst
          rw [← same]
          rcases List.mem_cons.mp member with rfl | member
          · rw [taken, List.mem_append, List.mem_singleton] at isSucc
            rcases isSucc with isEarlier | rfl
            · exact holds.scanned _ frameMember later isEarlier
            · exact isMember
          · exact holds.scanned frame (restMember frame member) later isSucc
  | none =>
      have allTaken : (successors node).take next = successors node :=
        List.take_of_length_le (List.getElem?_eq_none_iff.mp isNext)
      have same : state.order ++ [node] ++ rest.map Prod.fst = state.sequence := by
        rw [isSequence, List.append_assoc]
        rfl
      have isDistinct := holds.distinct
      rw [isSequence] at isDistinct
      have notFinished : node ∉ state.order := fun member =>
        (List.nodup_append.mp isDistinct).2.2 node member node List.mem_cons_self rfl
      dsimp only
      refine ⟨?_, ?_, ?_, ?_, ?_, ?_⟩
      · show (state.order ++ [node] ++ rest.map Prod.fst).Nodup
        exact same ▸ holds.distinct
      · intro other
        show _ ↔ other ∈ state.order ++ [node] ++ rest.map Prod.fst
        rw [same]
        dsimp only
        by_cases isNode : other = node
        · rw [isNode, Function.update_self, isSequence]
          simp
        · rw [Function.update_of_ne isNode]
          exact holds.marked other
      · show Led successors root (state.order ++ [node] ++ rest.map Prod.fst)
        exact same ▸ holds.led
      · intro other member
        dsimp only at member ⊢
        by_cases isNode : other = node
        · rw [isNode, Function.update_self, List.idxOf_append_of_notMem notFinished,
            List.idxOf_cons_self]
          rfl
        · rw [Function.update_of_ne isNode]
          rcases List.mem_append.mp member with wasFinished | isLast
          · rw [List.idxOf_append_of_mem wasFinished]
            exact holds.numbered other wasFinished
          · exact absurd (List.mem_singleton.mp isLast) isNode
      · intro other member later isSucc
        show later ∈ state.order ++ [node] ++ rest.map Prod.fst
        rw [same]
        rcases List.mem_append.mp member with wasFinished | isLast
        · exact holds.finished other wasFinished later isSucc
        · rw [List.mem_singleton.mp isLast, ← allTaken] at isSucc
          exact holds.scanned _ frameMember later isSucc
      · intro frame member later isSucc
        show later ∈ state.order ++ [node] ++ rest.map Prod.fst
        rw [same]
        exact holds.scanned frame (restMember frame member) later isSucc

theorem search_holds {state : Postorder n} (holds : state.Holds successors root) :
    (search successors state).Holds successors root ∧ (search successors state).stack = [] := by
  fun_induction search successors state with
  | case1 state isStack => exact ⟨holds, isStack⟩
  | case2 state node next rest isStack ih => exact ih (round_holds holds isStack)

end Postorder

/-- A numbering of the nodes that the root leads to, as `immediateDominators` uses it. -/
structure Numbered (successors : Fin n → List (Fin n)) (root : Fin n) (found : Postorder n) :
    Prop where
  distinct : found.order.Nodup
  led : Led successors root found.order
  member_iff : ∀ node, node ∈ found.order ↔ Reached (IsEdge successors) root node
  numbered : ∀ node ∈ found.order, found.postorder node = (found.order.idxOf node : WithTop ℕ)

theorem search_numbered (successors : Fin n → List (Fin n)) (root : Fin n) :
    Numbered successors root (Postorder.search successors (Postorder.initial root)) := by
  obtain ⟨holds, noStack⟩ :=
    Postorder.search_holds (Postorder.initial_holds successors root)
  generalize Postorder.search successors (Postorder.initial root) = found at holds noStack
  have same : found.sequence = found.order := by
    rw [Postorder.sequence, noStack]
    exact List.append_nil _
  have isLed := holds.led
  rw [same] at isLed
  refine ⟨same ▸ holds.distinct, isLed, ?_, holds.numbered⟩
  intro node
  constructor
  · exact fun member => isLed.reached member
  · rintro ⟨nodes, walk⟩
    induction walk with
    | start => exact isLed.root_mem
    | step front isEdge ih =>
        have isMember := holds.finished _ ih _ isEdge
        rw [same] at isMember
        exact isMember

end Bun.Bundler
