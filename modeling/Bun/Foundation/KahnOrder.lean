/-
The nodes of a finite directed graph are numbered so that edges go up.

A node is released when all of its edges come from nodes that are numbered.  Of the nodes that
are released the one with the least key is numbered next.
-/

import Bun.Foundation.Contraction
import Mathlib.Data.List.Sort
import Mathlib.Data.Fintype.Card
import Mathlib.Data.List.FinRange
import Mathlib.Data.Fintype.EquivFin
import Mathlib.Order.WellFounded

set_option autoImplicit false

namespace Bun.Foundation

open Relation

variable {n : ℕ}

/-- A graph on some of the nodes, with the edges of a node as a list. -/
structure FiniteGraph (n : ℕ) where
  live : Fin n → Bool
  next : Fin n → List (Fin n)

namespace FiniteGraph

def Edge (graph : FiniteGraph n) (first second : Fin n) : Prop :=
  graph.live first = true ∧ second ∈ graph.next first

def nodes (graph : FiniteGraph n) : List (Fin n) :=
  (List.finRange n).filter graph.live

def edgesFrom (graph : FiniteGraph n) (sources : List (Fin n)) (node : Fin n) : ℕ :=
  (sources.flatMap graph.next).count node

end FiniteGraph

structure KahnState (n : ℕ) where
  topo : Fin n → ℕ
  indegree : Fin n → ℕ
  ready : List (Fin n)
  count : ℕ := 0

namespace KahnState

def before (key : Fin n → ℕ) (first second : Fin n) : Prop :=
  key first < key second ∨ key first = key second ∧ first ≤ second

instance (key : Fin n → ℕ) : DecidableRel (before key) := fun first second =>
  inferInstanceAs (Decidable (key first < key second ∨ key first = key second ∧ first ≤ second))

def release (key : Fin n → ℕ) : (Fin n → ℕ) × List (Fin n) → List (Fin n) →
    (Fin n → ℕ) × List (Fin n)
  | state, [] => state
  | (indegree, ready), node :: rest =>
      let lowered := Function.update indegree node (indegree node - 1)
      release key
        (lowered, if lowered node = 0 then ready.orderedInsert (before key) node else ready) rest

def number (graph : FiniteGraph n) (key : Fin n → ℕ) : ℕ → KahnState n → KahnState n
  | 0, state => state
  | fuel + 1, state =>
      match state.ready with
      | [] => state
      | node :: rest =>
          let released := release key (state.indegree, rest) (graph.next node)
          number graph key fuel
            { topo := Function.update state.topo node state.count
              indegree := released.1
              ready := released.2
              count := state.count + 1 }

/-- Before any node is numbered those without edges to them are released. -/
def start (graph : FiniteGraph n) (key topo : Fin n → ℕ) : KahnState n where
  topo := topo
  indegree := graph.edgesFrom graph.nodes
  ready := (graph.nodes.filter fun node => graph.edgesFrom graph.nodes node = 0).foldr
    (List.orderedInsert (before key)) []

end KahnState

def FiniteGraph.number (graph : FiniteGraph n) (key topo : Fin n → ℕ) : (Fin n → ℕ) × Bool :=
  let final := KahnState.number graph key n (KahnState.start graph key topo)
  (final.topo, (List.finRange n).all fun node => !graph.live node || final.indegree node = 0)

namespace KahnState

/-! ### Releasing -/

theorem release_spec (key : Fin n → ℕ) (indegree : Fin n → ℕ) (ready ends : List (Fin n))
    (counted : ∀ node, ends.count node ≤ indegree node) (distinct : ready.Nodup)
    (waiting : ∀ node ∈ ends, node ∉ ready) :
    (∀ node, (release key (indegree, ready) ends).1 node = indegree node - ends.count node) ∧
      (∀ node, node ∈ (release key (indegree, ready) ends).2 ↔
        node ∈ ready ∨ node ∈ ends ∧ indegree node = ends.count node) ∧
      (release key (indegree, ready) ends).2.Nodup := by
  induction ends generalizing indegree ready with
  | nil => simp [release, distinct]
  | cons first rest ih =>
      have firstCounted := counted first
      rw [List.count_cons_self] at firstCounted
      have restCounted : ∀ node, rest.count node ≤
          Function.update indegree first (indegree first - 1) node := by
        intro node
        by_cases same : node = first
        · rw [same, Function.update_self]
          omega
        · have nodeCounted := counted node
          rw [List.count_cons_of_ne (Ne.symm same)] at nodeCounted
          rw [Function.update_of_ne same]
          exact nodeCounted
      have notReady := waiting first List.mem_cons_self
      rw [release, Function.update_self]
      by_cases isLast : indegree first - 1 = 0
      · rw [if_pos isLast]
        have noMore : rest.count first = 0 := by
          omega
        have firstGone : first ∉ rest := List.count_eq_zero.mp noMore
        obtain ⟨isIndegree, isReady, isDistinct⟩ :=
          ih _ (ready.orderedInsert (before key) first) restCounted
            ((List.perm_orderedInsert _ _ _).nodup_iff.mpr
              (List.nodup_cons.mpr ⟨notReady, distinct⟩)) (by
              intro node member
              rw [List.mem_orderedInsert, not_or]
              exact ⟨fun same => firstGone (same ▸ member),
                waiting node (List.mem_cons_of_mem _ member)⟩)
        refine ⟨?_, ?_, isDistinct⟩
        · intro node
          rw [isIndegree]
          by_cases same : node = first
          · rw [same, Function.update_self, List.count_cons_self]
            omega
          · rw [Function.update_of_ne same, List.count_cons_of_ne (Ne.symm same)]
        · intro node
          rw [isReady, List.mem_orderedInsert]
          by_cases same : node = first
          · rw [same, List.count_cons_self]
            simp only [true_or, List.mem_cons, true_and, true_iff]
            exact Or.inr (by omega)
          · rw [Function.update_of_ne same, List.count_cons_of_ne (Ne.symm same), List.mem_cons]
            simp only [same, false_or]
      · rw [if_neg isLast]
        obtain ⟨isIndegree, isReady, isDistinct⟩ := ih _ ready restCounted distinct
          fun node member => waiting node (List.mem_cons_of_mem _ member)
        refine ⟨?_, ?_, isDistinct⟩
        · intro node
          rw [isIndegree]
          by_cases same : node = first
          · rw [same, Function.update_self, List.count_cons_self]
            omega
          · rw [Function.update_of_ne same, List.count_cons_of_ne (Ne.symm same)]
        · intro node
          rw [isReady]
          by_cases same : node = first
          · rw [same, Function.update_self, List.count_cons_self]
            have whenLast : indegree first - 1 = rest.count first ↔
                indegree first = rest.count first + 1 := by
              omega
            have isRest : indegree first = rest.count first + 1 → first ∈ rest := by
              intro isCount
              exact List.count_pos_iff.mp (by omega)
            rw [whenLast, List.mem_cons]
            simp only [true_or, true_and]
            exact ⟨fun known => known.imp id And.right,
              fun known => known.imp id fun isCount => ⟨isRest isCount, isCount⟩⟩
          · rw [Function.update_of_ne same, List.count_cons_of_ne (Ne.symm same), List.mem_cons]
            simp only [same, false_or]

end KahnState

/-! ### Numbering -/

def FiniteGraph.Proper (graph : FiniteGraph n) : Prop :=
  ∀ first second, graph.Edge first second → graph.live second = true ∧ second ≠ first

theorem FiniteGraph.mem_nodes (graph : FiniteGraph n) (node : Fin n) :
    node ∈ graph.nodes ↔ graph.live node = true := by
  unfold nodes
  rw [List.mem_filter]
  exact ⟨And.right, fun live => ⟨List.mem_finRange node, live⟩⟩

theorem FiniteGraph.edgesFrom_eq_zero_iff (graph : FiniteGraph n) (sources : List (Fin n))
    (node : Fin n) :
    graph.edgesFrom sources node = 0 ↔ ∀ source ∈ sources, node ∉ graph.next source := by
  unfold edgesFrom
  rw [List.count_eq_zero, List.mem_flatMap]
  exact ⟨fun none source member isNext => none ⟨source, member, isNext⟩,
    fun none ⟨source, member, isNext⟩ => none source member isNext⟩

theorem FiniteGraph.edgesFrom_remove (graph : FiniteGraph n) {sources : List (Fin n)}
    (distinct : sources.Nodup) {source : Fin n} (member : source ∈ sources) (node : Fin n) :
    graph.edgesFrom sources node = (graph.next source).count node +
      graph.edgesFrom (sources.filter (· != source)) node := by
  unfold edgesFrom
  have isPerm := (List.perm_cons_erase member).flatMap_right graph.next
  rw [isPerm.count_eq, List.flatMap_cons, List.count_append, distinct.erase_eq_filter]

namespace KahnState

structure Numbered (graph : FiniteGraph n) (state : KahnState n) (done : List (Fin n)) :
    Prop where
  distinct : (done ++ state.ready).Nodup
  count : state.count = done.length
  indegree : ∀ node, state.indegree node =
    graph.edgesFrom (graph.nodes.filter (· ∉ done)) node
  released : ∀ node, node ∈ done ∨ node ∈ state.ready ↔
    graph.live node = true ∧ state.indegree node = 0
  below : ∀ node ∈ done, state.topo node < state.count
  ordered : ∀ first ∈ done, ∀ second ∈ done, second ∈ graph.next first →
    state.topo first < state.topo second
  injective : ∀ first ∈ done, ∀ second ∈ done, state.topo first = state.topo second →
    first = second

theorem start_numbered (graph : FiniteGraph n) (key topo : Fin n → ℕ) :
    Numbered graph (start graph key topo) [] := by
  have isPerm := List.perm_insertionSort (before key)
    (graph.nodes.filter fun node => graph.edgesFrom graph.nodes node = 0)
  refine ⟨?_, rfl, ?_, ?_, by simp, by simp, by simp⟩
  · exact isPerm.nodup_iff.mpr (((List.nodup_finRange n).filter _).filter _)
  · intro node
    simp [start]
  · intro node
    have isReady : node ∈ (start graph key topo).ready ↔
        node ∈ graph.nodes.filter fun node => graph.edgesFrom graph.nodes node = 0 :=
      isPerm.mem_iff
    rw [isReady, List.mem_filter, graph.mem_nodes]
    simp [start]

theorem Numbered.step {graph : FiniteGraph n} (proper : graph.Proper) {key : Fin n → ℕ}
    {state : KahnState n} {done : List (Fin n)} (numbered : Numbered graph state done)
    {node : Fin n} {rest : List (Fin n)} (isReady : state.ready = node :: rest) :
    Numbered graph
      { topo := Function.update state.topo node state.count
        indegree := (release key (state.indegree, rest) (graph.next node)).1
        ready := (release key (state.indegree, rest) (graph.next node)).2
        count := state.count + 1 } (node :: done) := by
  obtain ⟨distinct, count, indegree, released, below, ordered, injective⟩ := numbered
  rw [isReady] at distinct released
  have notDone : node ∉ done := fun member =>
    List.disjoint_of_nodup_append distinct member List.mem_cons_self
  obtain ⟨isLive, isZero⟩ := (released node).mp (Or.inr List.mem_cons_self)
  have restDistinct : (done ++ rest).Nodup ∧ node ∉ rest := by
    have whole := List.nodup_append.mp distinct
    have tail := List.nodup_cons.mp whole.2.1
    refine ⟨List.nodup_append.mpr ⟨whole.1, tail.2, ?_⟩, tail.1⟩
    exact fun first member second inRest => whole.2.2 first member second
      (List.mem_cons_of_mem _ inRest)
  have undone : node ∈ graph.nodes.filter (· ∉ done) := by
    rw [List.mem_filter, graph.mem_nodes]
    exact ⟨isLive, by simpa using notDone⟩
  have undoneDistinct : (graph.nodes.filter (· ∉ done)).Nodup :=
    ((List.nodup_finRange n).filter _).filter _
  -- the edges of the node are counted down
  have counted (other : Fin n) : state.indegree other = (graph.next node).count other +
      graph.edgesFrom (graph.nodes.filter (· ∉ node :: done)) other := by
    rw [indegree, graph.edgesFrom_remove undoneDistinct undone, List.filter_filter]
    congr 3
    funext first
    by_cases isNode : first = node
    · simp [isNode]
    · simp [isNode]
  have noEdge : ∀ other, state.indegree other = 0 → other ∉ graph.next node := by
    intro other none isNext
    have some := List.count_pos_iff.mpr isNext
    have isCount := counted other
    omega
  have waiting : ∀ other ∈ graph.next node, other ∉ done ∧ other ∉ node :: rest := by
    intro other isNext
    refine ⟨fun isDone => ?_, fun isReadied => ?_⟩
    · exact noEdge other ((released other).mp (Or.inl isDone)).2 isNext
    · exact noEdge other ((released other).mp (Or.inr isReadied)).2 isNext
  obtain ⟨isIndegree, isReleased, releasedDistinct⟩ := release_spec key state.indegree rest
    (graph.next node) (fun other => by have isCount := counted other; omega)
    (List.nodup_append.mp restDistinct.1).2.1
    (fun other isNext inRest => (waiting other isNext).2 (List.mem_cons_of_mem _ inRest))
  refine ⟨?_, ?_, ?_, ?_, ?_, ?_, ?_⟩
  · rw [List.cons_append, List.nodup_cons, List.mem_append, not_or, isReleased, not_or]
    refine ⟨⟨notDone, restDistinct.2, fun isSelf => ?_⟩, ?_⟩
    · exact (waiting node isSelf.1).2 List.mem_cons_self
    · refine List.nodup_append.mpr ⟨(List.nodup_append.mp restDistinct.1).1, releasedDistinct, ?_⟩
      intro first isDone second isNew same
      rw [isReleased] at isNew
      rcases isNew with inRest | ⟨isNext, -⟩
      · exact (List.nodup_append.mp restDistinct.1).2.2 first isDone second inRest same
      · exact (waiting second isNext).1 (same ▸ isDone)
  · exact congrArg (· + 1) count
  · intro other
    dsimp only
    rw [isIndegree, counted other]
    omega
  · intro other
    dsimp only
    rw [isReleased, isIndegree, List.mem_cons]
    have wasReleased := released other
    rw [List.mem_cons] at wasReleased
    have isCount := counted other
    constructor
    · rintro ((isNode | isDone) | inRest | ⟨isNext, isLast⟩)
      · rw [isNode, isZero]
        exact ⟨isLive, Nat.zero_sub _⟩
      · obtain ⟨live, none⟩ := wasReleased.mp (Or.inl isDone)
        exact ⟨live, by omega⟩
      · obtain ⟨live, none⟩ := wasReleased.mp (Or.inr (Or.inr inRest))
        exact ⟨live, by omega⟩
      · exact ⟨(proper node other ⟨isLive, isNext⟩).1, by omega⟩
    · rintro ⟨live, none⟩
      by_cases wasZero : state.indegree other = 0
      · rcases wasReleased.mpr ⟨live, wasZero⟩ with isDone | isNode | inRest
        · exact Or.inl (Or.inr isDone)
        · exact Or.inl (Or.inl isNode)
        · exact Or.inr (Or.inl inRest)
      · exact Or.inr (Or.inr ⟨List.count_pos_iff.mp (by omega), by omega⟩)
  · intro other member
    dsimp only
    rcases List.mem_cons.mp member with isNode | isDone
    · rw [isNode, Function.update_self]
      exact Nat.lt_succ_self _
    · have notNode : other ≠ node := fun same => notDone (same ▸ isDone)
      rw [Function.update_of_ne notNode]
      exact Nat.lt_succ_of_lt (below other isDone)
  · intro first firstMember second secondMember isNext
    dsimp only
    rcases List.mem_cons.mp firstMember with isNode | firstDone
    · rw [isNode] at isNext
      rcases List.mem_cons.mp secondMember with isSame | secondDone
      · exact absurd isSame (proper node second ⟨isLive, isNext⟩).2
      · exact absurd secondDone (waiting second isNext).1
    · have firstOther : first ≠ node := fun same => notDone (same ▸ firstDone)
      rw [Function.update_of_ne firstOther]
      rcases List.mem_cons.mp secondMember with isSame | secondDone
      · rw [isSame, Function.update_self]
        exact below first firstDone
      · have secondOther : second ≠ node := fun same => notDone (same ▸ secondDone)
        rw [Function.update_of_ne secondOther]
        exact ordered first firstDone second secondDone isNext
  · intro first firstMember second secondMember same
    dsimp only at same
    rcases List.mem_cons.mp firstMember with isFirst | firstDone
    · rcases List.mem_cons.mp secondMember with isSecond | secondDone
      · rw [isFirst, isSecond]
      · have secondOther : second ≠ node := fun same => notDone (same ▸ secondDone)
        rw [isFirst, Function.update_self, Function.update_of_ne secondOther] at same
        exact absurd same (Nat.ne_of_gt (below second secondDone))
    · have firstOther : first ≠ node := fun same => notDone (same ▸ firstDone)
      rw [Function.update_of_ne firstOther] at same
      rcases List.mem_cons.mp secondMember with isSecond | secondDone
      · rw [isSecond, Function.update_self] at same
        exact absurd same (Nat.ne_of_lt (below first firstDone))
      · have secondOther : second ≠ node := fun same => notDone (same ▸ secondDone)
        rw [Function.update_of_ne secondOther] at same
        exact injective first firstDone second secondDone same

theorem number_numbered {graph : FiniteGraph n} (proper : graph.Proper) (key : Fin n → ℕ)
    (fuel : ℕ) (state : KahnState n) (done : List (Fin n))
    (numbered : Numbered graph state done) (enough : n ≤ fuel + done.length) :
    ∃ all, Numbered graph (number graph key fuel state) all ∧
      (number graph key fuel state).ready = [] := by
  induction fuel generalizing state done with
  | zero =>
      refine ⟨done, numbered, ?_⟩
      have isBelow := numbered.distinct.length_le_card
      rw [Fintype.card_fin, List.length_append] at isBelow
      exact List.eq_nil_of_length_eq_zero (by simp only [number]; omega)
  | succ fuel ih =>
      rw [number]
      cases isReady : state.ready with
      | nil => exact ⟨done, numbered, isReady⟩
      | cons node rest =>
          refine ih _ (node :: done) (numbered.step proper isReady) ?_
          rw [List.length_cons]
          omega

theorem Numbered.complete {graph : FiniteGraph n} (acyclic : IsAcyclic graph.Edge)
    {state : KahnState n} {done : List (Fin n)} (numbered : Numbered graph state done)
    (noneReady : state.ready = []) {node : Fin n} (isLive : graph.live node = true) :
    node ∈ done := by
  have irreflexive : Std.Irrefl (TransGen graph.Edge) := ⟨acyclic⟩
  have wellFounded : WellFounded (TransGen graph.Edge) :=
    Finite.wellFounded_of_trans_of_irrefl _
  induction node using wellFounded.induction with
  | _ node ih =>
      by_contra notDone
      have isReleased := (numbered.released node).mpr
      rw [noneReady] at isReleased
      have noEdges : state.indegree node = 0 := by
        rw [numbered.indegree, graph.edgesFrom_eq_zero_iff]
        intro source undone isNext
        rw [List.mem_filter, graph.mem_nodes] at undone
        have isDone := ih source (TransGen.single ⟨undone.1, isNext⟩) undone.1
        simp [isDone] at undone
      rcases isReleased ⟨isLive, noEdges⟩ with isDone | isReady
      · exact notDone isDone
      · cases isReady

end KahnState

/-- Without a cycle every node gets a number of its own, and edges go up. -/
theorem FiniteGraph.number_spec {graph : FiniteGraph n} (proper : graph.Proper)
    (acyclic : IsAcyclic graph.Edge) (key topo : Fin n → ℕ) :
    (graph.number key topo).2 = true ∧
      (∀ first second, graph.Edge first second →
        (graph.number key topo).1 first < (graph.number key topo).1 second) ∧
      ∀ first second, graph.live first = true → graph.live second = true →
        (graph.number key topo).1 first = (graph.number key topo).1 second → first = second := by
  obtain ⟨all, numbered, noneReady⟩ := KahnState.number_numbered proper key n _ []
    (KahnState.start_numbered graph key topo) (by simp)
  have isAll {node : Fin n} (isLive : graph.live node = true) : node ∈ all :=
    numbered.complete acyclic noneReady isLive
  refine ⟨?_, ?_, ?_⟩
  · unfold FiniteGraph.number
    rw [List.all_eq_true]
    intro node _
    cases isLive : graph.live node with
    | false => rfl
    | true =>
        have isZero := ((numbered.released node).mp (Or.inl (isAll isLive))).2
        simp [isZero]
  · intro first second isEdge
    exact numbered.ordered first (isAll isEdge.1) second
      (isAll (proper first second isEdge).1) isEdge.2
  · intro first second firstLive secondLive same
    exact numbered.injective first (isAll firstLive) second (isAll secondLive) same

end Bun.Foundation
