/-
What it means to take an unused name.

A table is seen through the slot it shows for each name.  Taking a name changes the slot
of that name and, when it was made with a number, of the name it was made from.  The
guards of a scope are what such a step keeps: no name that a use inside the scope needs
is free there.
-/

import Mathlib.Data.List.Basic
import Bun.Renamer.NumberRenamer

set_option autoImplicit false

namespace Bun.Renamer

open Bun.Foundation

namespace NameScopes

variable {σ : Type} [NameScopes σ]

def view (table : σ) (name : Name) : NameSlot :=
  match idOf table name with
  | none => NameSlot.empty
  | some id => slot table id

theorem find_eq (table : σ) (name : Name) :
    find table (idOf table name) = findSlot table (view table name) := by
  unfold find view
  cases idOf table name with
  | none => rfl
  | some id => rfl

theorem isUnused_iff (table : σ) (name : Name) :
    isUnused table name = true ↔ findSlot table (view table name) = .unused := by
  unfold isUnused
  rw [decide_eq_true_iff, find_eq]

/-- A name is free when nobody holds it, or when its holder is not used in the scope. -/
theorem findSlot_eq_unused {table : σ} {slot : NameSlot} (unused : findSlot table slot = .unused) :
    slot.scope = noScope ∨
      slot.scope ≠ scope table ∧ ∃ owner, slot.owner = some owner ∧ sees table owner = false := by
  unfold findSlot at unused
  split at unused
  · rename_i nobody
    exact Or.inl nobody
  · split at unused
    · exact absurd unused (by simp)
    · rename_i elsewhere
      cases owner : slot.owner with
      | none =>
          rw [owner] at unused
          exact absurd unused (by simp)
      | some holder =>
          rw [owner] at unused
          refine Or.inr ⟨elsewhere, holder, rfl, ?_⟩
          dsimp only at unused
          split at unused
          · exact absurd unused (by simp)
          · rename_i unseen
            exact Bool.eq_false_iff.mpr unseen

end NameScopes

open NameScopes in
/-- A table changes the slot it is told to, and shows the others as before. -/
class LawfulNameScopes (σ : Type) [NameScopes σ] where
  Ok : σ → Prop
  scope_ne : ∀ table : σ, Ok table → scope table ≠ noScope
  mem_known : ∀ (table : σ) (name : Name), Ok table → (view table name).scope ≠ noScope →
    name ∈ known table
  place_ok : ∀ (table : σ) (name : Name) (slot : NameSlot), Ok table → slot.scope = scope table →
    Ok (place table name slot)
  place_scope : ∀ (table : σ) (name : Name) (slot : NameSlot),
    scope (place table name slot) = scope table
  place_sees : ∀ (table : σ) (name : Name) (slot : NameSlot),
    sees (place table name slot) = sees table
  view_place : ∀ (table : σ) (name : Name) (slot : NameSlot), Ok table →
    slot.scope = scope table → view (place table name slot) name = slot
  view_place_other : ∀ (table : σ) (name other : Name) (slot : NameSlot), Ok table →
    slot.scope = scope table → other ≠ name → view (place table name slot) other = view table other

namespace NameScopes

open LawfulNameScopes

variable {σ : Type} [NameScopes σ] [LawfulNameScopes σ]

theorem numberedName_injective (name : Name) : Function.Injective (numberedName name) := by
  intro a b same
  exact decimalText_injective (List.append_cancel_left same)

theorem freeNumber_unused (table : σ) (ok : Ok table) (name : Name) (start : ℕ) :
    isUnused table (numberedName name (freeNumber table name start)) = true := by
  have notKnown {candidate : Name} (free : candidate ∉ known table) :
      isUnused table candidate = true := by
    rw [isUnused_iff]
    unfold findSlot
    rw [if_pos]
    by_contra held
    exact free (mem_known table candidate ok held)
  obtain ⟨n, atLeast, small, free⟩ :=
    exists_unused_below (numberedName_injective name) (known table) start
  obtain ⟨found, first⟩ : ∃ found, IsFirst
      (fun n => isUnused table (numberedName name n)) start found :=
    exists_isFirst ⟨n, atLeast, notKnown free⟩
  have bound : found ≤ n := by
    by_contra beyond
    have rejected := first.rejected n atLeast (by omega)
    rw [notKnown free] at rejected
    exact absurd rejected (by decide)
  unfold freeNumber
  rw [firstFrom_of_isFirst first (by omega), Option.getD_some]
  exact first.accepted

/-! ### Taking a name -/

/-- What `findUnusedName` does to the table. -/
structure Takes (table after : σ) (owner : Ref) (name : Name) : Prop where
  ok : Ok after
  scope_eq : scope after = scope table
  sees_eq : sees after = sees table
  unused : findSlot table (view table name) = .unused
  holds : view after name = { scope := scope table, count := 1, owner := some owner }
  others : ∀ other, other ≠ name → view after other = view table other ∨
    findSlot table (view table other) ≠ .unused ∧ ∃ count, view after other =
      { scope := scope table
        count
        owner := if (view table other).scope = scope table then (view table other).owner else none }

theorem place_takes (table : σ) (ok : Ok table) (owner : Ref) (name : Name)
    (unused : findSlot table (view table name) = .unused) :
    Takes table (place table name { scope := scope table, count := 1, owner := some owner })
      owner name where
  ok := place_ok table name _ ok rfl
  scope_eq := place_scope table name _
  sees_eq := place_sees table name _
  unused := unused
  holds := view_place table name _ ok rfl
  others := fun other different => Or.inl (view_place_other table name other _ ok rfl different)

omit [LawfulNameScopes σ] in
theorem resumeAt_eq (table : σ) (name : Name) (tries : ℕ)
    (held : findSlot table (view table name) ≠ .unused) :
    resumeAt table name tries = place table name
      { scope := scope table
        count := tries
        owner := if (view table name).scope = scope table then (view table name).owner else none } := by
  unfold resumeAt place view
  cases found : idOf table name with
  | none =>
      refine absurd ?_ held
      unfold view
      rw [found]
      rfl
  | some id => rfl

theorem number_takes (table : σ) (ok : Ok table) (owner : Ref) (name : Name) (start : ℕ)
    (held : findSlot table (view table name) ≠ .unused) :
    Takes table (place (resumeAt table name (freeNumber table name start))
        (numberedName name (freeNumber table name start))
        { scope := scope table, count := 1, owner := some owner })
      owner (numberedName name (freeNumber table name start)) := by
  have free := (isUnused_iff _ _).mp (freeNumber_unused table ok name start)
  generalize freeNumber table name start = tries at free ⊢
  rw [resumeAt_eq table name tries held]
  have different : numberedName name tries ≠ name := by
    intro same
    rw [same] at free
    exact held free
  have resumed := place_ok table name
    { scope := scope table
      count := tries
      owner := if (view table name).scope = scope table then (view table name).owner else none }
    ok rfl
  refine ⟨place_ok _ _ _ resumed (place_scope _ _ _).symm,
    (place_scope _ _ _).trans (place_scope _ _ _), (place_sees _ _ _).trans (place_sees _ _ _),
    free, view_place _ _ _ resumed (place_scope _ _ _).symm, fun other notRenamed => ?_⟩
  rw [view_place_other _ _ _ _ resumed (place_scope _ _ _).symm notRenamed]
  by_cases base : other = name
  · subst base
    exact Or.inr ⟨held, tries, view_place _ _ _ ok rfl⟩
  · exact Or.inl (view_place_other _ _ _ _ ok rfl base)

theorem findUnusedName_takes (identifiers : Identifiers) (table : σ) (ok : Ok table)
    (inputName : Name) (owner : Ref) :
    Takes table (findUnusedName identifiers table inputName owner).2 owner
      (findUnusedName identifiers table inputName owner).1 := by
  unfold findUnusedName
  generalize (identifiers.validIdentifierFor inputName).getD inputName = name
  dsimp only
  rw [find_eq]
  split
  · rename_i unused
    exact place_takes table ok owner name unused
  · rename_i held
    exact number_takes table ok owner name _ held

theorem validName_ne_nil (identifiers : Identifiers) (name : Name) :
    (identifiers.validIdentifierFor name).getD name ≠ [] := by
  unfold Identifiers.validIdentifierFor
  split
  · rename_i simple
    rw [Option.getD_none]
    rintro rfl
    exact absurd simple (by decide)
  · exact identifiers.ensureValidIdentifier_ne_nil name

omit [LawfulNameScopes σ] in
theorem findUnusedName_ne_nil (identifiers : Identifiers) (table : σ) (inputName : Name)
    (owner : Ref) : (findUnusedName identifiers table inputName owner).1 ≠ [] := by
  have valid := validName_ne_nil identifiers inputName
  unfold findUnusedName
  generalize (identifiers.validIdentifierFor inputName).getD inputName = name at valid ⊢
  dsimp only
  split
  · exact valid
  · intro empty
    exact valid (List.append_eq_nil_iff.mp empty).1

end NameScopes

/-! ### The guards of a scope -/

open NameScopes LawfulNameScopes

/-- Where a table stands between the symbols of the enclosing scopes, those of the current
one, and the uses inside it. -/
structure Guards (slots : Name → NameSlot) (scope : ℕ) (nameOf : Ref → Name)
    (reserved : List Name) (outer current : List Ref) (uses : Ref → Prop) : Prop where
  of_reserved : ∀ name ∈ reserved, (slots name).scope ≠ noScope ∧ (slots name).owner = none
  of_current : ∀ ref ∈ current, (slots (nameOf ref)).scope = scope
  of_held : ∀ ref, ref ∈ outer ∨ ref ∈ current → (slots (nameOf ref)).scope ≠ noScope ∧
    ∀ owner, (slots (nameOf ref)).owner = some owner → owner = ref ∨ ¬ uses ref

namespace Guards

variable {σ : Type} [NameScopes σ] [LawfulNameScopes σ] {reserved : List Name}
  {outer current : List Ref} {uses : Ref → Prop} {nameOf : Ref → Name}

theorem enter {slots : Name → NameSlot} {scope inner : ℕ} {innerUses : Ref → Prop}
    (guards : Guards slots scope nameOf reserved outer current uses)
    (fewer : ∀ ref, innerUses ref → uses ref) :
    Guards slots inner nameOf reserved (current ++ outer) [] innerUses where
  of_reserved := guards.of_reserved
  of_current := fun _ member => absurd member List.not_mem_nil
  of_held := by
    rintro ref (member | impossible)
    · obtain ⟨held, owners⟩ := guards.of_held ref (List.mem_append.mp member).symm
      refine ⟨held, fun owner isOwner => ?_⟩
      rcases owners owner isOwner with same | unused
      · exact Or.inl same
      · exact Or.inr fun used => unused (fewer ref used)
    · exact absurd impossible List.not_mem_nil

theorem congr {slots : Name → NameSlot} {scope : ℕ} {other : Ref → Name}
    (guards : Guards slots scope nameOf reserved outer current uses)
    (same : ∀ ref, ref ∈ outer ∨ ref ∈ current → other ref = nameOf ref) :
    Guards slots scope other reserved outer current uses where
  of_reserved := guards.of_reserved
  of_current := by
    intro ref member
    rw [same ref (Or.inr member)]
    exact guards.of_current ref member
  of_held := by
    intro ref member
    rw [same ref member]
    exact guards.of_held ref member

/-- A name that is taken is not reserved, no symbol of the scope has it, and an outer
symbol that has it is not used inside the scope. -/
theorem takes_free {table after : σ} {owner : Ref} {name : Name}
    (guards : Guards (view table) (scope table) nameOf reserved outer current uses)
    (unseen : ∀ ref, sees table ref = false → ¬ uses ref)
    (takes : Takes table after owner name) :
    name ∉ reserved ∧ (∀ ref ∈ current, nameOf ref ≠ name) ∧
      ∀ ref ∈ outer, nameOf ref = name → ¬ uses ref := by
  rcases findSlot_eq_unused takes.unused with nobody | ⟨elsewhere, holder, isHolder, notSeen⟩
  · refine ⟨fun isReserved => (guards.of_reserved name isReserved).1 nobody,
      fun ref member same => ?_, fun ref member same => ?_⟩
    · rw [← same] at nobody
      exact absurd nobody (guards.of_held ref (Or.inr member)).1
    · rw [← same] at nobody
      exact absurd nobody (guards.of_held ref (Or.inl member)).1
  · refine ⟨fun isReserved => ?_, fun ref member same => ?_, fun ref member same => ?_⟩
    · rw [(guards.of_reserved name isReserved).2] at isHolder
      exact absurd isHolder (by simp)
    · rw [← same] at elsewhere
      exact elsewhere (guards.of_current ref member)
    · rw [← same] at isHolder
      rcases (guards.of_held ref (Or.inl member)).2 holder isHolder with rfl | unused
      · exact unseen holder notSeen
      · exact unused

theorem takes_step {table after : σ} {owner : Ref} {name : Name} (ok : Ok table)
    (guards : Guards (view table) (scope table) nameOf reserved outer current uses)
    (unseen : ∀ ref, sees table ref = false → ¬ uses ref)
    (takes : Takes table after owner name) (isName : nameOf owner = name) :
    Guards (view after) (scope after) nameOf reserved outer (current ++ [owner]) uses := by
  obtain ⟨notReserved, fresh, notUsed⟩ := guards.takes_free unseen takes
  have inScope := scope_ne table ok
  refine ⟨fun other isReserved => ?_, fun ref member => ?_, fun ref member => ?_⟩
  · have different : other ≠ name := fun same => notReserved (same ▸ isReserved)
    obtain ⟨held, nobody⟩ := guards.of_reserved other isReserved
    rcases takes.others other different with same | ⟨_, count, changed⟩
    · rw [same]
      exact ⟨held, nobody⟩
    · rw [changed]
      exact ⟨inScope, by simp [nobody]⟩
  · rw [takes.scope_eq]
    rcases List.mem_append.mp member with before | isOwner
    · have different := fresh ref before
      rcases takes.others (nameOf ref) different with same | ⟨_, count, changed⟩
      · rw [same]
        exact guards.of_current ref before
      · rw [changed]
    · obtain rfl := List.mem_singleton.mp isOwner
      rw [isName, takes.holds]
  · by_cases same : nameOf ref = name
    · rw [same, takes.holds]
      refine ⟨inScope, fun holder isHolder => ?_⟩
      obtain rfl := Option.some_inj.mp isHolder
      rcases member with inOuter | inCurrent
      · exact Or.inr (notUsed ref inOuter same)
      · rcases List.mem_append.mp inCurrent with before | isOwner
        · exact absurd same (fresh ref before)
        · exact Or.inl (List.mem_singleton.mp isOwner).symm
    · have before : ref ∈ outer ∨ ref ∈ current := by
        rcases member with inOuter | inCurrent
        · exact Or.inl inOuter
        · rcases List.mem_append.mp inCurrent with before | isOwner
          · exact Or.inr before
          · rw [List.mem_singleton.mp isOwner] at same
            exact absurd isName same
      obtain ⟨held, owners⟩ := guards.of_held ref before
      rcases takes.others (nameOf ref) same with unchanged | ⟨_, count, changed⟩
      · rw [unchanged]
        exact ⟨held, owners⟩
      · rw [changed]
        refine ⟨inScope, fun holder isHolder => ?_⟩
        dsimp only at isHolder
        split at isHolder
        · exact owners holder isHolder
        · exact absurd isHolder (by simp)

/-- A name that is taken for granted to be free keeps the guards as well. -/
theorem place {table : σ} {ref : Ref} (ok : Ok table)
    (guards : Guards (view table) (scope table) nameOf reserved outer current uses)
    (notReserved : nameOf ref ∉ reserved)
    (fresh : ∀ other, other ∈ outer ∨ other ∈ current → nameOf other = nameOf ref → other = ref) :
    Guards (view (NameScopes.place table (nameOf ref)
        { scope := scope table, count := 1, owner := some ref }))
      (scope table) nameOf reserved outer (current ++ [ref]) uses := by
  have inScope := scope_ne table ok
  have placed := view_place table (nameOf ref)
    { scope := scope table, count := 1, owner := some ref } ok rfl
  have others {name : Name} (different : name ≠ nameOf ref) :=
    view_place_other table (nameOf ref) name
      { scope := scope table, count := 1, owner := some ref } ok rfl different
  refine ⟨fun name isReserved => ?_, fun other member => ?_, fun other member => ?_⟩
  · rw [others fun same => notReserved (same ▸ isReserved)]
    exact guards.of_reserved name isReserved
  · by_cases same : nameOf other = nameOf ref
    · rw [same, placed]
    · rw [others same]
      rcases List.mem_append.mp member with before | isNew
      · exact guards.of_current other before
      · exact absurd (congrArg nameOf (List.mem_singleton.mp isNew)) same
  · by_cases same : nameOf other = nameOf ref
    · rw [same, placed]
      refine ⟨inScope, fun holder isHolder => Or.inl ?_⟩
      obtain rfl := Option.some_inj.mp isHolder
      rcases member with inOuter | inCurrent
      · exact (fresh other (Or.inl inOuter) same).symm
      · rcases List.mem_append.mp inCurrent with before | isNew
        · exact (fresh other (Or.inr before) same).symm
        · exact (List.mem_singleton.mp isNew).symm
    · rw [others same]
      rcases member with inOuter | inCurrent
      · exact guards.of_held other (Or.inl inOuter)
      · rcases List.mem_append.mp inCurrent with before | isNew
        · exact guards.of_held other (Or.inr before)
        · exact absurd (congrArg nameOf (List.mem_singleton.mp isNew)) same

end Guards

end Bun.Renamer
