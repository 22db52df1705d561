/-
Forests stored as a list of nodes that point to their parents.

A node stands behind its parent, so the way up from a node ends.  The chain of a
node is the node with its ancestors, the nearest first.
-/

import Mathlib.Data.List.Basic

set_option autoImplicit false

namespace Bun.Foundation

/-- Nodes with the index of their parent, which is a node before them. -/
structure Forest (α : Type) where
  nodes : List (Option Nat × α)
  parentFirst : ∀ (id parent : Nat) (value : α),
    nodes[id]? = some (some parent, value) → parent < id

namespace Forest

variable {α β : Type}

def empty : Forest α :=
  { nodes := [], parentFirst := by simp }

def size (forest : Forest α) : Nat :=
  forest.nodes.length

def parent (forest : Forest α) (id : Nat) : Option Nat :=
  forest.nodes[id]?.bind Prod.fst

def value (forest : Forest α) (id : Nat) : Option α :=
  forest.nodes[id]?.map Prod.snd

theorem parent_lt {forest : Forest α} {id above : Nat} (isParent : forest.parent id = some above) :
    above < id := by
  unfold parent at isParent
  obtain ⟨node, stored, above_eq⟩ := Option.bind_eq_some_iff.mp isParent
  obtain ⟨first, value⟩ := node
  dsimp only at above_eq
  subst above_eq
  exact forest.parentFirst id above value stored

/-! ### Changing a forest -/

theorem concat_parentFirst (forest : Forest α) {above : Option Nat} (value : α)
    (inside : ∀ parent ∈ above, parent < forest.nodes.length) (id parent : Nat) (storedValue : α)
    (stored : (forest.nodes ++ [(above, value)])[id]? = some (some parent, storedValue)) :
    parent < id := by
  rcases Nat.lt_trichotomy id forest.nodes.length with old | last | outside
  · rw [List.getElem?_append_left old] at stored
    exact forest.parentFirst id parent storedValue stored
  · subst last
    rw [List.getElem?_concat_length] at stored
    cases stored
    exact inside parent rfl
  · rw [List.getElem?_eq_none (by simp; omega)] at stored
    cases stored

def push? (forest : Forest α) (above : Option Nat) (value : α) : Option (Forest α) :=
  if inside : ∀ parent ∈ above, parent < forest.size then
    some
      { nodes := forest.nodes ++ [(above, value)]
        parentFirst := forest.concat_parentFirst value inside }
  else none

def modify (forest : Forest α) (id : Nat) (change : α → α) : Forest α :=
  { nodes := forest.nodes.modify id (fun node => (node.1, change node.2))
    parentFirst := by
      intro at' parent stored_value stored
      rw [List.getElem?_modify] at stored
      obtain ⟨node, isNode, changed⟩ := Option.map_eq_some_iff.mp stored
      have sameParent : node.1 = some parent := by
        split at changed
        · exact congrArg Prod.fst changed
        · exact congrArg Prod.fst changed
      obtain ⟨first, value⟩ := node
      dsimp only at sameParent
      subst sameParent
      exact forest.parentFirst at' parent value isNode }

def pop (forest : Forest α) : Forest α :=
  { nodes := forest.nodes.dropLast
    parentFirst := by
      intro id parent stored_value stored
      rw [List.getElem?_dropLast] at stored
      split at stored
      · exact forest.parentFirst id parent stored_value stored
      · cases stored }

/-! ### Reading a changed forest -/

theorem push?_isSome {forest : Forest α} {above : Option Nat} (value : α)
    (inside : ∀ parent ∈ above, parent < forest.size) :
    ∃ pushed, forest.push? above value = some pushed := by
  unfold push?
  rw [dif_pos inside]
  exact ⟨_, rfl⟩

theorem nodes_push? {forest pushed : Forest α} {above : Option Nat} {value : α}
    (isPush : forest.push? above value = some pushed) :
    pushed.nodes = forest.nodes ++ [(above, value)] := by
  unfold push? at isPush
  split at isPush
  · cases isPush
    rfl
  · cases isPush

section Push

variable {forest pushed : Forest α} {above : Option Nat} {added : α}

theorem size_push? (isPush : forest.push? above added = some pushed) :
    pushed.size = forest.size + 1 := by
  unfold size
  rw [nodes_push? isPush, List.length_append, List.length_singleton]

theorem getElem?_push? (isPush : forest.push? above added = some pushed) (id : Nat) :
    pushed.nodes[id]? = if id = forest.size then some (above, added) else forest.nodes[id]? := by
  rw [nodes_push? isPush]
  unfold size
  split
  · rename_i isLast
    subst isLast
    exact List.getElem?_concat_length
  · rename_i notLast
    rcases Nat.lt_or_ge id forest.nodes.length with old | outside
    · exact List.getElem?_append_left old
    · rw [List.getElem?_eq_none outside, List.getElem?_eq_none]
      rw [List.length_append, List.length_singleton]
      omega

theorem parent_push? (isPush : forest.push? above added = some pushed) (id : Nat) :
    pushed.parent id = if id = forest.size then above else forest.parent id := by
  unfold parent
  rw [getElem?_push? isPush]
  split <;> rfl

theorem value_push? (isPush : forest.push? above added = some pushed) (id : Nat) :
    pushed.value id = if id = forest.size then some added else forest.value id := by
  unfold value
  rw [getElem?_push? isPush]
  split <;> rfl

end Push

theorem size_modify (forest : Forest α) (id : Nat) (change : α → α) :
    (forest.modify id change).size = forest.size := by
  simp [size, modify]

theorem getElem?_nodes_modify (forest : Forest α) (id : Nat) (change : α → α) (at' : Nat) :
    (forest.modify id change).nodes[at']? =
      forest.nodes[at']?.map fun node =>
        if id = at' then (node.1, change node.2) else node := by
  unfold modify
  rw [List.getElem?_modify]
  cases forest.nodes[at']? with
  | none => rfl
  | some node => split <;> rfl

theorem parent_modify (forest : Forest α) (id : Nat) (change : α → α) (at' : Nat) :
    (forest.modify id change).parent at' = forest.parent at' := by
  unfold parent
  rw [getElem?_nodes_modify]
  cases forest.nodes[at']? with
  | none => rfl
  | some node => dsimp only [Option.map_some, Option.bind_some]; split <;> rfl

theorem value_modify (forest : Forest α) (id : Nat) (change : α → α) (at' : Nat) :
    (forest.modify id change).value at' =
      (forest.value at').map fun value => if id = at' then change value else value := by
  unfold value
  rw [getElem?_nodes_modify]
  cases forest.nodes[at']? with
  | none => rfl
  | some node => dsimp only [Option.map_some]; split <;> rfl

theorem size_pop (forest : Forest α) : forest.pop.size = forest.size - 1 :=
  List.length_dropLast

theorem parent_pop (forest : Forest α) {id : Nat} (inside : id < forest.size - 1) :
    forest.pop.parent id = forest.parent id := by
  unfold size at inside
  unfold parent pop
  rw [List.getElem?_dropLast, if_pos inside]

theorem value_pop (forest : Forest α) {id : Nat} (inside : id < forest.size - 1) :
    forest.pop.value id = forest.value id := by
  unfold size at inside
  unfold value pop
  rw [List.getElem?_dropLast, if_pos inside]

theorem value_eq_none (forest : Forest α) {id : Nat} (outside : forest.size ≤ id) :
    forest.value id = none := by
  unfold value
  rw [List.getElem?_eq_none outside]
  rfl

theorem parent_eq_none (forest : Forest α) {id : Nat} (outside : forest.size ≤ id) :
    forest.parent id = none := by
  unfold parent
  rw [List.getElem?_eq_none outside]
  rfl

theorem value_isSome (forest : Forest α) {id : Nat} (inside : id < forest.size) :
    ∃ value, forest.value id = some value := by
  unfold value
  rw [List.getElem?_eq_getElem inside]
  exact ⟨_, rfl⟩

/-! ### The way up -/

def chain (forest : Forest α) (id : Nat) : List Nat :=
  match _found : forest.parent id with
  | none => [id]
  | some above => id :: forest.chain above
termination_by id
decreasing_by exact parent_lt _found

theorem chain_top {forest : Forest α} {id : Nat} (isTop : forest.parent id = none) :
    forest.chain id = [id] := by
  unfold chain
  split
  · rfl
  · rename_i above found
    rw [isTop] at found
    cases found

theorem chain_below {forest : Forest α} {id above : Nat} (isBelow : forest.parent id = some above) :
    forest.chain id = id :: forest.chain above := by
  rw [chain]
  split
  · rename_i found
    rw [isBelow] at found
    cases found
  · rename_i above' found
    rw [isBelow] at found
    cases found
    rfl

theorem chain_congr {forest : Forest α} {other : Forest β} (id : Nat)
    (same : ∀ at', at' ≤ id → other.parent at' = forest.parent at') :
    other.chain id = forest.chain id := by
  induction id using Nat.strongRecOn with
  | _ id ih =>
      cases found : forest.parent id with
      | none => rw [chain_top found, chain_top ((same id (Nat.le_refl _)).trans found)]
      | some above =>
          have before := parent_lt found
          rw [chain_below found, chain_below ((same id (Nat.le_refl _)).trans found),
            ih above before fun at' below => same at' (by omega)]

theorem mem_chain_le {forest : Forest α} {id : Nat} :
    ∀ at' ∈ forest.chain id, at' ≤ id := by
  induction id using Nat.strongRecOn with
  | _ id ih =>
      intro at' inChain
      cases found : forest.parent id with
      | none =>
          rw [chain_top found] at inChain
          exact Nat.le_of_eq (List.mem_singleton.mp inChain)
      | some above =>
          have before := parent_lt found
          rw [chain_below found] at inChain
          rcases List.mem_cons.mp inChain with rfl | higher
          · exact Nat.le_refl _
          · have le := ih above before at' higher
            omega

theorem chain_eq_cons (forest : Forest α) (id : Nat) :
    forest.chain id = id :: (forest.chain id).tail := by
  cases found : forest.parent id with
  | none => rw [chain_top found]; rfl
  | some above => rw [chain_below found]; rfl

def top (forest : Forest α) (id : Nat) : Nat :=
  (forest.chain id).getLastD id

theorem top_of_parent_none {forest : Forest α} {id : Nat} (isTop : forest.parent id = none) :
    forest.top id = id := by
  unfold top
  rw [chain_top isTop]
  rfl

theorem top_mem_chain (forest : Forest α) (id : Nat) : forest.top id ∈ forest.chain id := by
  unfold top
  rw [chain_eq_cons, List.getLastD_cons,
    ← List.getLast_eq_getLastD (List.cons_ne_nil id (forest.chain id).tail)]
  exact List.getLast_mem _

theorem top_le (forest : Forest α) (id : Nat) : forest.top id ≤ id :=
  mem_chain_le _ (forest.top_mem_chain id)

theorem top_eq {forest : Forest α} {root : Nat}
    (onlyTop : ∀ id, id < forest.size → forest.parent id = none → id = root) (id : Nat)
    (inside : id < forest.size) : forest.top id = root := by
  induction id using Nat.strongRecOn with
  | _ id ih =>
      cases found : forest.parent id with
      | none =>
          rw [top_of_parent_none found]
          exact onlyTop id inside found
      | some above =>
          have before := parent_lt found
          have upwards := ih above before (by omega)
          unfold top at upwards ⊢
          rw [chain_below found, List.getLastD_cons]
          rw [chain_eq_cons forest above] at upwards ⊢
          rw [List.getLastD_cons] at upwards ⊢
          exact upwards

end Forest

end Bun.Foundation
