/-
The two name tables obey the laws.

In the table of the nested scopes the slots of enclosing scopes stay below those of the
current one, and the undo log leads from the overlay of a scope back to the overlay that
the scope was entered with.
-/

import Mathlib.Data.List.GetD
import Bun.Renamer.UnusedName

set_option autoImplicit false

namespace Bun.Renamer

open NameScopes

/-! ### Interned names -/

/-- Different names have different ids, from `low` up to `high`. -/
structure Interned (ids : List (Name × ℕ)) (low high : ℕ) : Prop where
  bounds : ∀ name id, ids.lookup name = some id → low ≤ id ∧ id < high
  injective : ∀ a b id, ids.lookup a = some id → ids.lookup b = some id → a = b

theorem Interned.nil (low high : ℕ) : Interned [] low high where
  bounds := fun _ _ found => absurd found (by simp)
  injective := fun _ _ _ found => absurd found (by simp)

theorem lookup_cons_self (name : Name) (id : ℕ) (ids : List (Name × ℕ)) :
    ((name, id) :: ids).lookup name = some id := by
  rw [List.lookup_cons, beq_self_eq_true]

theorem lookup_cons_other {name other : Name} (different : other ≠ name) (id : ℕ)
    (ids : List (Name × ℕ)) : ((name, id) :: ids).lookup other = ids.lookup other := by
  rw [List.lookup_cons, beq_eq_false_iff_ne.mpr different]

theorem Interned.cons {ids : List (Name × ℕ)} {low high : ℕ} (interned : Interned ids low high)
    (ordered : low ≤ high) (name : Name) : Interned ((name, high) :: ids) low (high + 1) := by
  have old {other : Name} {id : ℕ} (different : other ≠ name)
      (found : ((name, high) :: ids).lookup other = some id) : ids.lookup other = some id := by
    rw [lookup_cons_other different] at found
    exact found
  refine ⟨fun other id found => ?_, fun a b id foundA foundB => ?_⟩
  · by_cases same : other = name
    · subst same
      rw [lookup_cons_self] at found
      obtain rfl := Option.some_inj.mp found
      exact ⟨ordered, Nat.lt_succ_self high⟩
    · obtain ⟨atLeast, less⟩ := interned.bounds other id (old same found)
      exact ⟨atLeast, Nat.lt_succ_of_lt less⟩
  · by_cases sameA : a = name
    · subst sameA
      by_contra different
      have foundB := old (fun same => different same.symm) foundB
      rw [lookup_cons_self] at foundA
      obtain rfl := Option.some_inj.mp foundA
      exact absurd (interned.bounds b high foundB).2 (Nat.lt_irrefl high)
    · by_cases sameB : b = name
      · subst sameB
        rw [lookup_cons_self] at foundB
        obtain rfl := Option.some_inj.mp foundB
        exact absurd (interned.bounds a high (old sameA foundA)).2 (Nat.lt_irrefl high)
      · exact interned.injective a b id (old sameA foundA) (old sameB foundB)

theorem mem_fst_of_lookup {ids : List (Name × ℕ)} {name : Name} {id : ℕ}
    (found : ids.lookup name = some id) : name ∈ ids.map Prod.fst := by
  obtain ⟨before, after, split, _⟩ := List.lookup_eq_some_iff.mp found
  rw [split, List.map_append, List.map_cons]
  exact List.mem_append_right _ List.mem_cons_self

/-! ### The root table -/

namespace NumberRenamer

def Ok (renamer : NumberRenamer) : Prop :=
  Interned renamer.ids 0 renamer.slots.length

theorem view_eq (renamer : NumberRenamer) (name : Name) :
    view renamer name =
      match renamer.ids.lookup name with
      | none => NameSlot.empty
      | some id => renamer.slots.getD id NameSlot.empty :=
  rfl

/-- What placing a slot does: the id is there already, or it is the next one. -/
theorem place_cases (renamer : NumberRenamer) (name : Name) (slot : NameSlot) :
    (∃ id, renamer.ids.lookup name = some id ∧
      place renamer name slot = { renamer with slots := renamer.slots.set id slot }) ∨
    (renamer.ids.lookup name = none ∧
      place renamer name slot = { renamer with
        ids := (name, renamer.slots.length) :: renamer.ids
        slots := renamer.slots ++ [slot] }) := by
  unfold place
  rw [show idOf renamer name = renamer.ids.lookup name from rfl]
  cases found : renamer.ids.lookup name with
  | some id => exact Or.inl ⟨id, rfl, rfl⟩
  | none =>
      refine Or.inr ⟨rfl, ?_⟩
      simp only [NameScopes.intern, intern, found, NameScopes.setSlot]
      congr 1
      simp

instance : LawfulNameScopes NumberRenamer where
  Ok := Ok
  scope_ne := fun _ _ => Nat.one_ne_zero
  mem_known := by
    intro renamer name _ held
    rw [view_eq] at held
    cases found : renamer.ids.lookup name with
    | none =>
        rw [found] at held
        exact absurd rfl held
    | some id => exact mem_fst_of_lookup found
  place_ok := by
    intro renamer name slot ok _
    rcases place_cases renamer name slot with ⟨id, _, placed⟩ | ⟨_, placed⟩
    · rw [placed]
      unfold Ok
      rw [List.length_set]
      exact ok
    · rw [placed]
      unfold Ok
      rw [List.length_append, List.length_singleton]
      exact Interned.cons ok (Nat.zero_le _) name
  place_scope := fun _ _ _ => rfl
  place_sees := fun _ _ _ => rfl
  view_place := by
    intro renamer name slot ok _
    rcases place_cases renamer name slot with ⟨id, found, placed⟩ | ⟨_, placed⟩
    · have bound := (Interned.bounds ok name id found).2
      rw [placed, view_eq]
      simp only [found]
      rw [List.getD_eq_getElem _ _ (by rw [List.length_set]; exact bound), List.getElem_set_self]
    · rw [placed, view_eq]
      simp only [lookup_cons_self]
      rw [List.getD_eq_getElem _ _ (by simp)]
      simp
  view_place_other := by
    intro renamer name other slot ok _ different
    rcases place_cases renamer name slot with ⟨id, found, placed⟩ | ⟨_, placed⟩
    · rw [placed, view_eq, view_eq]
      dsimp only
      cases otherId : renamer.ids.lookup other with
      | none => rfl
      | some id' =>
          have apart : id ≠ id' := by
            rintro rfl
            exact different (Interned.injective ok other name id otherId found)
          simp [apart]
    · rw [placed, view_eq, view_eq]
      dsimp only
      rw [lookup_cons_other different]
      cases otherId : renamer.ids.lookup other with
      | none => rfl
      | some id' =>
          have bound := (Interned.bounds ok other id' otherId).2
          simp [List.getElem?_append_left bound]

end NumberRenamer

/-! ### The table of the nested scopes -/

namespace NestedRenamer

structure Ok (renamer : NestedRenamer) : Prop where
  of_root : renamer.root.Ok
  locals : Interned renamer.localIds renamer.root.slots.length renamer.nextLocalId
  ordered : renamer.root.slots.length ≤ renamer.nextLocalId
  overlay_bound : ∀ id index, renamer.overlay id = some index → index < renamer.slots.length
  overlay_injective : ∀ a b index, renamer.overlay a = some index →
    renamer.overlay b = some index → a = b
  overlay_ids : ∀ id index, renamer.overlay id = some index → id < renamer.nextLocalId
  scope_ne : renamer.scope ≠ noScope
  scope_lt : renamer.scope < renamer.nextScope
  slots_lt : ∀ slot ∈ renamer.slots, slot.scope < renamer.nextScope

variable {renamer : NestedRenamer}

theorem idOf_eq (renamer : NestedRenamer) (name : Name) :
    idOf renamer name =
      (renamer.root.ids.lookup name).orElse fun _ => renamer.localIds.lookup name :=
  rfl

theorem idOf_cases {name : Name} {id : ℕ} (found : idOf renamer name = some id) :
    renamer.root.ids.lookup name = some id ∨
      renamer.root.ids.lookup name = none ∧ renamer.localIds.lookup name = some id := by
  rw [idOf_eq] at found
  cases inRoot : renamer.root.ids.lookup name with
  | none =>
      rw [inRoot] at found
      exact Or.inr ⟨rfl, found⟩
  | some other =>
      rw [inRoot] at found
      exact Or.inl found

theorem Ok.idOf_lt (ok : renamer.Ok) {name : Name} {id : ℕ} (found : idOf renamer name = some id) :
    id < renamer.nextLocalId := by
  rcases idOf_cases found with inRoot | ⟨_, inLocals⟩
  · exact (ok.of_root.bounds name id inRoot).2.trans_le ok.ordered
  · exact (ok.locals.bounds name id inLocals).2

theorem Ok.idOf_injective (ok : renamer.Ok) {a b : Name} {id : ℕ}
    (foundA : idOf renamer a = some id) (foundB : idOf renamer b = some id) : a = b := by
  rcases idOf_cases foundA with rootA | ⟨_, localA⟩
  · rcases idOf_cases foundB with rootB | ⟨_, localB⟩
    · exact ok.of_root.injective a b id rootA rootB
    · exact absurd (ok.of_root.bounds a id rootA).2
        (Nat.not_lt.mpr (ok.locals.bounds b id localB).1)
  · rcases idOf_cases foundB with rootB | ⟨_, localB⟩
    · exact absurd (ok.of_root.bounds b id rootB).2
        (Nat.not_lt.mpr (ok.locals.bounds a id localA).1)
    · exact ok.locals.injective a b id localA localB

/-- A slot is written in place, or pushed with an entry in the undo log. -/
theorem setSlot_cases (renamer : NestedRenamer) (id : ℕ) (slot : NameSlot) :
    (∃ index, renamer.overlay id = some index ∧
      (renamer.slots.getD index NameSlot.empty).scope = renamer.scope ∧
      setSlot renamer id slot = { renamer with slots := renamer.slots.set index slot }) ∨
    (∃ entry, undoEntry (setOverlay renamer.overlay id (some renamer.slots.length)) (id, entry) =
        renamer.overlay ∧
      setSlot renamer id slot = { renamer with
        undo := (id, entry) :: renamer.undo
        overlay := setOverlay renamer.overlay id (some renamer.slots.length)
        slots := renamer.slots ++ [slot] }) := by
  have restores (previous : Option ℕ) (was : renamer.overlay id = previous) (entry : ℕ)
      (encodes : (if entry = 0 then none else some (entry - 1)) = previous) :
      undoEntry (setOverlay renamer.overlay id (some renamer.slots.length)) (id, entry) =
        renamer.overlay := by
    funext other
    unfold undoEntry setOverlay
    dsimp only
    by_cases same : other = id
    · rw [if_pos same, encodes, same, was]
    · rw [if_neg same, if_neg same]
  unfold setSlot
  cases found : renamer.overlay id with
  | none => exact Or.inr ⟨0, restores none found 0 rfl, rfl⟩
  | some index =>
      dsimp only
      split
      · rename_i inPlace
        exact Or.inl ⟨index, rfl, inPlace, rfl⟩
      · exact Or.inr ⟨index + 1, restores (some index) found (index + 1) (by simp), rfl⟩

def slotOf (renamer : NestedRenamer) (id : ℕ) : NameSlot :=
  match renamer.overlay id with
  | none => renamer.root.slots.getD id NameSlot.empty
  | some index => renamer.slots.getD index NameSlot.empty

theorem view_eq (renamer : NestedRenamer) (name : Name) :
    view renamer name =
      match idOf renamer name with
      | none => NameSlot.empty
      | some id => slotOf renamer id :=
  rfl

theorem Ok.slotOf_setSlot (ok : renamer.Ok) (id : ℕ) (slot : NameSlot) :
    slotOf (setSlot renamer id slot) id = slot := by
  rcases setSlot_cases renamer id slot with ⟨index, found, _, changed⟩ | ⟨entry, _, changed⟩
  · have bound := ok.overlay_bound id index found
    rw [changed]
    unfold slotOf
    simp only [found]
    rw [List.getD_eq_getElem _ _ (by rw [List.length_set]; exact bound), List.getElem_set_self]
  · rw [changed]
    unfold slotOf setOverlay
    simp

theorem Ok.slotOf_setSlot_other (ok : renamer.Ok) {id other : ℕ} (different : other ≠ id)
    (slot : NameSlot) : slotOf (setSlot renamer id slot) other = slotOf renamer other := by
  rcases setSlot_cases renamer id slot with ⟨index, found, _, changed⟩ | ⟨entry, _, changed⟩
  · rw [changed]
    unfold slotOf
    dsimp only
    cases otherIndex : renamer.overlay other with
    | none => rfl
    | some index' =>
        have apart : index ≠ index' := by
          rintro rfl
          exact different (ok.overlay_injective other id index otherIndex found)
        simp [apart]
  · rw [changed]
    unfold slotOf setOverlay
    simp only [if_neg different]
    cases otherIndex : renamer.overlay other with
    | none => rfl
    | some index' => simp [List.getElem?_append_left (ok.overlay_bound other index' otherIndex)]

theorem Ok.setSlot_ok (ok : renamer.Ok) {id : ℕ} (isId : id < renamer.nextLocalId)
    {slot : NameSlot} (inScope : slot.scope = renamer.scope) : (setSlot renamer id slot).Ok := by
  have small : slot.scope < renamer.nextScope := by
    rw [inScope]
    exact ok.scope_lt
  rcases setSlot_cases renamer id slot with ⟨index, found, _, changed⟩ | ⟨entry, _, changed⟩
  · rw [changed]
    refine { ok with overlay_bound := ?_, slots_lt := ?_ }
    · intro other index' isIndex
      rw [List.length_set]
      exact ok.overlay_bound other index' isIndex
    · intro other member
      rcases List.mem_or_eq_of_mem_set member with before | rfl
      · exact ok.slots_lt other before
      · exact small
  · rw [changed]
    have overlaid {other index' : ℕ}
        (isIndex : setOverlay renamer.overlay id (some renamer.slots.length) other = some index') :
        other = id ∧ index' = renamer.slots.length ∨ renamer.overlay other = some index' := by
      unfold setOverlay at isIndex
      split at isIndex
      · rename_i same
        exact Or.inl ⟨same, (Option.some_inj.mp isIndex).symm⟩
      · exact Or.inr isIndex
    refine { ok with overlay_bound := ?_, overlay_injective := ?_, overlay_ids := ?_, slots_lt := ?_ }
    · intro other index' isIndex
      rw [List.length_append, List.length_singleton]
      rcases overlaid isIndex with ⟨_, rfl⟩ | before
      · exact Nat.lt_succ_self _
      · exact Nat.lt_succ_of_lt (ok.overlay_bound other index' before)
    · intro a b index' isA isB
      rcases overlaid isA with ⟨rfl, rfl⟩ | beforeA
      · rcases overlaid isB with ⟨sameB, _⟩ | beforeB
        · exact sameB.symm
        · exact absurd (ok.overlay_bound b _ beforeB) (Nat.lt_irrefl _)
      · rcases overlaid isB with ⟨_, rfl⟩ | beforeB
        · exact absurd (ok.overlay_bound a _ beforeA) (Nat.lt_irrefl _)
        · exact ok.overlay_injective a b index' beforeA beforeB
    · intro other index' isIndex
      rcases overlaid isIndex with ⟨rfl, _⟩ | before
      · exact isId
      · exact ok.overlay_ids other index' before
    · intro other member
      rcases List.mem_append.mp member with before | last
      · exact ok.slots_lt other before
      · rw [List.mem_singleton.mp last]
        exact small

def addLocal (renamer : NestedRenamer) (name : Name) : NestedRenamer :=
  { renamer with
    localIds := (name, renamer.nextLocalId) :: renamer.localIds
    nextLocalId := renamer.nextLocalId + 1 }

theorem Ok.addLocal_ok (ok : renamer.Ok) (name : Name) : (addLocal renamer name).Ok where
  of_root := ok.of_root
  locals := ok.locals.cons ok.ordered name
  ordered := Nat.le_succ_of_le ok.ordered
  overlay_bound := ok.overlay_bound
  overlay_injective := ok.overlay_injective
  overlay_ids := fun id index found => Nat.lt_succ_of_lt (ok.overlay_ids id index found)
  scope_ne := ok.scope_ne
  scope_lt := ok.scope_lt
  slots_lt := ok.slots_lt

theorem idOf_addLocal {name : Name} (unknown : idOf renamer name = none) :
    idOf (addLocal renamer name) name = some renamer.nextLocalId := by
  rw [idOf_eq] at unknown ⊢
  unfold addLocal
  dsimp only
  cases inRoot : renamer.root.ids.lookup name with
  | some id =>
      rw [inRoot] at unknown
      exact absurd unknown (by simp)
  | none =>
      rw [lookup_cons_self]
      rfl

theorem idOf_addLocal_other {name other : Name} (different : other ≠ name) :
    idOf (addLocal renamer name) other = idOf renamer other := by
  rw [idOf_eq, idOf_eq]
  unfold addLocal
  dsimp only
  rw [lookup_cons_other different]

/-- Placing a slot is setting it, after the name has been interned if it is a new one. -/
theorem place_cases (renamer : NestedRenamer) (name : Name) (slot : NameSlot) :
    (∃ id, idOf renamer name = some id ∧ place renamer name slot = setSlot renamer id slot) ∨
      (idOf renamer name = none ∧ place renamer name slot =
        setSlot (addLocal renamer name) renamer.nextLocalId slot) := by
  unfold place
  cases found : idOf renamer name with
  | some id => exact Or.inl ⟨id, rfl, rfl⟩
  | none =>
      refine Or.inr ⟨rfl, ?_⟩
      have unknown : renamer.localIds.lookup name = none := by
        rw [idOf_eq] at found
        cases inRoot : renamer.root.ids.lookup name with
        | some id =>
            rw [inRoot] at found
            exact absurd found (by simp)
        | none =>
            rw [inRoot] at found
            exact found
      simp only [NameScopes.intern, intern, unknown, NameScopes.setSlot]
      rfl

theorem setSlot_frame (renamer : NestedRenamer) (id : ℕ) (slot : NameSlot) :
    (setSlot renamer id slot).root = renamer.root ∧
      (setSlot renamer id slot).localIds = renamer.localIds ∧
      (setSlot renamer id slot).nextLocalId = renamer.nextLocalId ∧
      (setSlot renamer id slot).scope = renamer.scope ∧
      (setSlot renamer id slot).nextScope = renamer.nextScope ∧
      (setSlot renamer id slot).astScope = renamer.astScope ∧
      (setSlot renamer id slot).uses = renamer.uses ∧
      (setSlot renamer id slot).names = renamer.names ∧
      (setSlot renamer id slot).sourceIndex = renamer.sourceIndex := by
  rcases setSlot_cases renamer id slot with ⟨index, _, _, changed⟩ | ⟨entry, _, changed⟩
  · rw [changed]
    exact ⟨rfl, rfl, rfl, rfl, rfl, rfl, rfl, rfl, rfl⟩
  · rw [changed]
    exact ⟨rfl, rfl, rfl, rfl, rfl, rfl, rfl, rfl, rfl⟩

theorem idOf_setSlot (renamer : NestedRenamer) (id : ℕ) (slot : NameSlot) (name : Name) :
    idOf (setSlot renamer id slot) name = idOf renamer name := by
  obtain ⟨root, locals, _⟩ := setSlot_frame renamer id slot
  rw [idOf_eq, idOf_eq, root, locals]

theorem place_frame (renamer : NestedRenamer) (name : Name) (slot : NameSlot) :
    (place renamer name slot).root = renamer.root ∧
      (place renamer name slot).scope = renamer.scope ∧
      (place renamer name slot).nextScope = renamer.nextScope ∧
      (place renamer name slot).astScope = renamer.astScope ∧
      (place renamer name slot).uses = renamer.uses ∧
      (place renamer name slot).names = renamer.names ∧
      (place renamer name slot).sourceIndex = renamer.sourceIndex := by
  rcases place_cases renamer name slot with ⟨id, _, placed⟩ | ⟨_, placed⟩
  · rw [placed]
    obtain ⟨root, _, _, rest⟩ := setSlot_frame renamer id slot
    exact ⟨root, rest⟩
  · rw [placed]
    obtain ⟨root, _, _, rest⟩ := setSlot_frame (addLocal renamer name) renamer.nextLocalId slot
    exact ⟨root, rest⟩

instance : LawfulNameScopes NestedRenamer where
  Ok := Ok
  scope_ne := fun _ ok => ok.scope_ne
  mem_known := by
    intro renamer name _ held
    rw [view_eq] at held
    cases found : idOf renamer name with
    | none =>
        rw [found] at held
        exact absurd rfl held
    | some id =>
        change name ∈ renamer.root.ids.map Prod.fst ++ renamer.localIds.map Prod.fst
        rw [List.mem_append]
        rcases idOf_cases found with inRoot | ⟨_, inLocals⟩
        · exact Or.inl (mem_fst_of_lookup inRoot)
        · exact Or.inr (mem_fst_of_lookup inLocals)
  place_ok := by
    intro renamer name slot ok inScope
    rcases place_cases renamer name slot with ⟨id, found, placed⟩ | ⟨_, placed⟩
    · rw [placed]
      exact ok.setSlot_ok (ok.idOf_lt found) inScope
    · rw [placed]
      exact (ok.addLocal_ok name).setSlot_ok (Nat.lt_succ_self _) inScope
  place_scope := fun renamer name slot => (place_frame renamer name slot).2.1
  place_sees := by
    intro renamer name slot
    obtain ⟨_, _, _, astScope, uses, _⟩ := place_frame renamer name slot
    funext owner
    change (place renamer name slot).uses owner (place renamer name slot).astScope = _
    rw [uses, astScope]
    rfl
  view_place := by
    intro renamer name slot ok _
    rcases place_cases renamer name slot with ⟨id, found, placed⟩ | ⟨unknown, placed⟩
    · rw [placed, view_eq, idOf_setSlot, found]
      exact ok.slotOf_setSlot id slot
    · rw [placed, view_eq, idOf_setSlot, idOf_addLocal unknown]
      exact (ok.addLocal_ok name).slotOf_setSlot renamer.nextLocalId slot
  view_place_other := by
    intro renamer name other slot ok _ different
    rcases place_cases renamer name slot with ⟨id, found, placed⟩ | ⟨unknown, placed⟩
    · rw [placed, view_eq, view_eq, idOf_setSlot]
      cases otherId : idOf renamer other with
      | none => rfl
      | some id' =>
          refine ok.slotOf_setSlot_other ?_ slot
          rintro rfl
          exact different (ok.idOf_injective otherId found)
    · rw [placed, view_eq, view_eq, idOf_setSlot, idOf_addLocal_other different]
      cases otherId : idOf renamer other with
      | none => rfl
      | some id' =>
          exact (ok.addLocal_ok name).slotOf_setSlot_other (Nat.ne_of_lt (ok.idOf_lt otherId)) slot

/-! ### The undo log -/

/-- Names that were known keep their ids, and other names get new ones. -/
def KeepsIds (before renamer : NestedRenamer) : Prop :=
  before.nextLocalId ≤ renamer.nextLocalId ∧
    ∀ name, idOf renamer name = idOf before name ∨
      idOf before name = none ∧ ∃ id, idOf renamer name = some id ∧ before.nextLocalId ≤ id

theorem KeepsIds.refl (renamer : NestedRenamer) : KeepsIds renamer renamer :=
  ⟨Nat.le_refl _, fun _ => Or.inl rfl⟩

theorem KeepsIds.trans {first second third : NestedRenamer} (one : KeepsIds first second)
    (two : KeepsIds second third) : KeepsIds first third := by
  refine ⟨one.1.trans two.1, fun name => ?_⟩
  rcases two.2 name with same | ⟨unknown, id, found, fresh⟩
  · rcases one.2 name with kept | ⟨unknown, id, found, fresh⟩
    · exact Or.inl (same.trans kept)
    · exact Or.inr ⟨unknown, id, same.trans found, fresh⟩
  · rcases one.2 name with kept | ⟨_, id', found', _⟩
    · exact Or.inr ⟨kept.symm.trans unknown, id, found, one.1.trans fresh⟩
    · rw [unknown] at found'
      exact absurd found' (by simp)

theorem place_keepsIds (renamer : NestedRenamer) (name : Name) (slot : NameSlot) :
    KeepsIds renamer (place renamer name slot) := by
  rcases place_cases renamer name slot with ⟨id, _, placed⟩ | ⟨unknown, placed⟩
  · rw [placed]
    refine ⟨(setSlot_frame renamer id slot).2.2.1.ge, fun other => Or.inl ?_⟩
    exact idOf_setSlot renamer id slot other
  · rw [placed]
    have next := (setSlot_frame (addLocal renamer name) renamer.nextLocalId slot).2.2.1
    refine ⟨?_, fun other => ?_⟩
    · rw [next]
      exact Nat.le_succ _
    · rw [idOf_setSlot]
      by_cases same : other = name
      · subst same
        exact Or.inr ⟨unknown, _, idOf_addLocal unknown, Nat.le_refl _⟩
      · exact Or.inl (idOf_addLocal_other same)

/-- How the parts that a scope undoes have grown since it was entered. -/
structure Within (before renamer : NestedRenamer) : Prop where
  undo : ∃ added, renamer.undo = added ++ before.undo ∧
    added.foldl undoEntry renamer.overlay = before.overlay
  slots : ∃ own, renamer.slots = before.slots ++ own

theorem Within.refl (renamer : NestedRenamer) : Within renamer renamer :=
  ⟨⟨[], rfl, rfl⟩, ⟨[], (List.append_nil _).symm⟩⟩

theorem Within.setSlot {before : NestedRenamer} (within : Within before renamer)
    (older : ∀ slot ∈ before.slots, slot.scope ≠ renamer.scope) (id : ℕ) (slot : NameSlot) :
    Within before (NestedRenamer.setSlot renamer id slot) := by
  obtain ⟨added, log, restores⟩ := within.undo
  obtain ⟨own, slots⟩ := within.slots
  rcases setSlot_cases renamer id slot with ⟨index, _, current, changed⟩ | ⟨entry, undone, changed⟩
  · rw [changed]
    refine ⟨⟨added, log, restores⟩, ⟨own.set (index - before.slots.length) slot, ?_⟩⟩
    have above : before.slots.length ≤ index := by
      by_contra below
      rw [not_le] at below
      rw [slots, List.getD_eq_getElem _ _ (by rw [List.length_append]; omega),
        List.getElem_append_left below] at current
      exact older _ (List.getElem_mem below) current
    dsimp only
    rw [slots, List.set_append_right index slot above]
  · rw [changed]
    refine ⟨⟨(id, entry) :: added, ?_, ?_⟩, ⟨own ++ [slot], ?_⟩⟩
    · rw [List.cons_append, ← log]
    · rw [List.foldl_cons, undone]
      exact restores
    · rw [← List.append_assoc, ← slots]

theorem Within.place {before : NestedRenamer} (within : Within before renamer)
    (older : ∀ slot ∈ before.slots, slot.scope ≠ renamer.scope) (name : Name) (slot : NameSlot) :
    Within before (NameScopes.place renamer name slot) := by
  rcases place_cases renamer name slot with ⟨id, _, placed⟩ | ⟨_, placed⟩
  · rw [placed]
    exact within.setSlot older id slot
  · rw [placed]
    have added : Within before (addLocal renamer name) := ⟨within.undo, within.slots⟩
    exact added.setSlot older renamer.nextLocalId slot

theorem Within.leave {before entered : NestedRenamer} (within : Within entered renamer)
    (undo : entered.undo = before.undo) (overlay : entered.overlay = before.overlay)
    (slots : entered.slots = before.slots) :
    (renamer.leave before).overlay = before.overlay ∧ (renamer.leave before).undo = before.undo ∧
      (renamer.leave before).slots = before.slots := by
  obtain ⟨added, log, restores⟩ := within.undo
  obtain ⟨own, grown⟩ := within.slots
  rw [undo] at log
  rw [overlay] at restores
  rw [slots] at grown
  have count : renamer.undo.length - before.undo.length = added.length := by
    rw [log, List.length_append]
    omega
  unfold NestedRenamer.leave
  dsimp only
  rw [count, log, List.take_left, List.drop_left, grown, List.take_left]
  exact ⟨restores, rfl, rfl⟩

end NestedRenamer

end Bun.Renamer
