/-
What visiting a scope leaves behind.

Naming the symbols of a scope, and of everything below it, changes names that were not
given yet and nothing that the enclosing scope can see.
-/

import Bun.Renamer.NameTables

set_option autoImplicit false

namespace Bun.Renamer

namespace NameScopes

variable {σ : Type} [NameScopes σ]

theorem resumeAt_cases (table : σ) (name : Name) (tries : ℕ) :
    resumeAt table name tries = table ∨
      ∃ slot, slot.scope = scope table ∧ resumeAt table name tries = place table name slot := by
  unfold resumeAt place
  cases idOf table name with
  | none => exact Or.inl rfl
  | some id => exact Or.inr ⟨_, rfl, rfl⟩

theorem findUnusedName_induct {motive : σ → Prop} (identifiers : Identifiers) (table : σ)
    (inputName : Name) (owner : Ref) (start : motive table)
    (step : ∀ (table : σ) (name : Name) (slot : NameSlot), motive table →
      motive (place table name slot)) :
    motive (findUnusedName identifiers table inputName owner).2 := by
  unfold findUnusedName
  dsimp only
  split
  · exact step _ _ _ start
  · apply step
    rcases resumeAt_cases table _ _ with same | ⟨slot, _, placed⟩
    · rw [same]
      exact start
    · rw [placed]
      exact step _ _ _ start

end NameScopes

namespace NestedRenamer

open NameScopes

variable {before renamer : NestedRenamer}

/-- What holds between a renamer and any later one of the same file. -/
structure Extends (before renamer : NestedRenamer) : Prop where
  root_eq : renamer.root = before.root
  uses_eq : renamer.uses = before.uses
  source_eq : renamer.sourceIndex = before.sourceIndex
  ids : KeepsIds before renamer
  serials : before.nextScope ≤ renamer.nextScope
  names_kept : ∀ inner, before.names inner ≠ [] → renamer.names inner = before.names inner

theorem Extends.refl (renamer : NestedRenamer) : Extends renamer renamer where
  root_eq := rfl
  uses_eq := rfl
  source_eq := rfl
  ids := KeepsIds.refl renamer
  serials := Nat.le_refl _
  names_kept := fun _ _ => rfl

theorem Extends.trans {first second third : NestedRenamer} (one : Extends first second)
    (two : Extends second third) : Extends first third where
  root_eq := two.root_eq.trans one.root_eq
  uses_eq := two.uses_eq.trans one.uses_eq
  source_eq := two.source_eq.trans one.source_eq
  ids := one.ids.trans two.ids
  serials := one.serials.trans two.serials
  names_kept := by
    intro inner named
    have kept := one.names_kept inner named
    rw [← kept] at named ⊢
    exact two.names_kept inner named

structure SameScope (before renamer : NestedRenamer) : Prop extends Extends before renamer where
  scope_eq : renamer.scope = before.scope
  astScope_eq : renamer.astScope = before.astScope

theorem SameScope.refl (renamer : NestedRenamer) : SameScope renamer renamer :=
  ⟨Extends.refl renamer, rfl, rfl⟩

theorem SameScope.trans {first second third : NestedRenamer} (one : SameScope first second)
    (two : SameScope second third) : SameScope first third :=
  ⟨one.toExtends.trans two.toExtends, two.scope_eq.trans one.scope_eq,
    two.astScope_eq.trans one.astScope_eq⟩

theorem place_sameScope (renamer : NestedRenamer) (name : Name) (slot : NameSlot) :
    SameScope renamer (place renamer name slot) := by
  obtain ⟨root, scope, nextScope, astScope, uses, names, source⟩ := place_frame renamer name slot
  refine ⟨⟨root, uses, source, place_keepsIds renamer name slot, nextScope.ge, ?_⟩, scope, astScope⟩
  intro inner _
  rw [names]

theorem findUnusedName_sameScope (identifiers : Identifiers) (renamer : NestedRenamer)
    (inputName : Name) (owner : Ref) :
    SameScope renamer (findUnusedName identifiers renamer inputName owner).2 :=
  findUnusedName_induct identifiers renamer inputName owner (SameScope.refl renamer)
    fun table name slot same => same.trans (place_sameScope table name slot)

theorem findUnusedName_names (identifiers : Identifiers) (renamer : NestedRenamer)
    (inputName : Name) (owner : Ref) :
    (findUnusedName identifiers renamer inputName owner).2.names = renamer.names := by
  refine findUnusedName_induct (motive := fun table : NestedRenamer => table.names = renamer.names)
    identifiers renamer inputName owner rfl ?_
  intro table name slot same
  obtain ⟨_, _, _, _, _, names, _⟩ := place_frame table name slot
  exact names.trans same

/-! ### Naming one symbol -/

/-- Whether a file's renamer names a symbol that its links lead to. -/
def isOwn (symbols : SymbolMap) (sourceIndex : ℕ) (ref : Ref) : Bool :=
  ref.sourceIndex = sourceIndex && (symbols.get ref).slotNamespace = .default

def setName (renamer : NestedRenamer) (inner : ℕ) (name : Name) : NestedRenamer :=
  { renamer with names := fun other => if other = inner then name else renamer.names other }

theorem assignName_cases (identifiers : Identifiers) (renamer : NestedRenamer) (inputRef : Ref) :
    let ref := renamer.root.symbols.follow inputRef
    (assignName identifiers renamer inputRef = renamer ∧
      (isOwn renamer.root.symbols renamer.sourceIndex ref = false ∨
        renamer.names ref.innerIndex ≠ [])) ∨
    (isOwn renamer.root.symbols renamer.sourceIndex ref = true ∧
      renamer.names ref.innerIndex = [] ∧
      assignName identifiers renamer inputRef =
        (findUnusedName identifiers renamer (renamer.root.symbols.get ref).originalName ref).2.setName
          ref.innerIndex
          (findUnusedName identifiers renamer (renamer.root.symbols.get ref).originalName ref).1) := by
  unfold assignName isOwn
  dsimp only
  generalize renamer.root.symbols.follow inputRef = ref
  split
  · rename_i elsewhere
    exact Or.inl ⟨rfl, Or.inl (by simp [elsewhere])⟩
  · rename_i here
    split
    · rename_i named
      exact Or.inl ⟨rfl, Or.inr (by simpa using named)⟩
    · rename_i unnamed
      split
      · rename_i notDefault
        exact Or.inl ⟨rfl, Or.inl (by simp [notDefault])⟩
      · rename_i isDefault
        exact Or.inr ⟨by simpa using ⟨of_not_not here, of_not_not isDefault⟩,
          by simpa using unnamed, rfl⟩

theorem setName_sameScope {inner : ℕ} (unnamed : renamer.names inner = []) (name : Name) :
    SameScope renamer (renamer.setName inner name) := by
  refine ⟨⟨rfl, rfl, rfl, KeepsIds.refl renamer, Nat.le_refl _, fun other named => ?_⟩, rfl, rfl⟩
  have different : other ≠ inner := by
    rintro rfl
    exact named unnamed
  exact if_neg different

theorem assignName_sameScope (identifiers : Identifiers) (renamer : NestedRenamer)
    (inputRef : Ref) : SameScope renamer (assignName identifiers renamer inputRef) := by
  rcases assignName_cases identifiers renamer inputRef with ⟨same, _⟩ | ⟨_, unnamed, changed⟩
  · rw [same]
    exact SameScope.refl renamer
  · rw [changed]
    refine (findUnusedName_sameScope identifiers renamer _ _).trans (setName_sameScope ?_ _)
    rw [findUnusedName_names]
    exact unnamed

theorem Ok.setName (ok : renamer.Ok) (inner : ℕ) (name : Name) : (renamer.setName inner name).Ok :=
  ⟨ok.of_root, ok.locals, ok.ordered, ok.overlay_bound, ok.overlay_injective, ok.overlay_ids,
    ok.scope_ne, ok.scope_lt, ok.slots_lt⟩

theorem Ok.assignName (ok : renamer.Ok) (identifiers : Identifiers) (inputRef : Ref) :
    (assignName identifiers renamer inputRef).Ok := by
  rcases assignName_cases identifiers renamer inputRef with ⟨same, _⟩ | ⟨_, _, changed⟩
  · rw [same]
    exact ok
  · rw [changed]
    exact Ok.setName (findUnusedName_takes identifiers renamer ok _ _).ok _ _

theorem assignName_within (identifiers : Identifiers) (within : Within before renamer)
    (older : ∀ slot ∈ before.slots, slot.scope ≠ renamer.scope) (inputRef : Ref) :
    Within before (assignName identifiers renamer inputRef) := by
  rcases assignName_cases identifiers renamer inputRef with ⟨same, _⟩ | ⟨_, _, changed⟩
  · rw [same]
    exact within
  · rw [changed]
    obtain ⟨found, _⟩ := findUnusedName_induct
      (motive := fun table : NestedRenamer => Within before table ∧ table.scope = renamer.scope)
      identifiers renamer _ _ ⟨within, rfl⟩ (by
        intro table name slot ⟨inside, same⟩
        obtain ⟨_, scope, _⟩ := place_frame table name slot
        rw [← same] at older
        exact ⟨inside.place older name slot, scope.trans same⟩)
    exact ⟨found.undo, found.slots⟩

/-! ### A scope and what is below it -/

/-- The slots of enclosing scopes have smaller serials than the scope that is entered. -/
theorem Ok.older (ok : before.Ok) (index : ℕ) :
    ∀ slot ∈ before.slots, slot.scope ≠ (before.enter index).scope :=
  fun slot member => Nat.ne_of_lt (ok.slots_lt slot member)

theorem Ok.enter (ok : before.Ok) (index : ℕ) : (before.enter index).Ok where
  of_root := ok.of_root
  locals := ok.locals
  ordered := ok.ordered
  overlay_bound := ok.overlay_bound
  overlay_injective := ok.overlay_injective
  overlay_ids := ok.overlay_ids
  scope_ne := Nat.ne_of_gt (Nat.zero_lt_of_lt ok.scope_lt)
  scope_lt := Nat.lt_succ_self _
  slots_lt := fun slot member => Nat.lt_succ_of_lt (ok.slots_lt slot member)

structure Returns (before renamer : NestedRenamer) : Prop extends SameScope before renamer where
  overlay_eq : renamer.overlay = before.overlay
  undo_eq : renamer.undo = before.undo
  slots_eq : renamer.slots = before.slots

theorem Returns.refl (renamer : NestedRenamer) : Returns renamer renamer :=
  ⟨SameScope.refl renamer, rfl, rfl, rfl⟩

theorem Returns.trans {first second third : NestedRenamer} (one : Returns first second)
    (two : Returns second third) : Returns first third :=
  ⟨one.toSameScope.trans two.toSameScope, two.overlay_eq.trans one.overlay_eq,
    two.undo_eq.trans one.undo_eq, two.slots_eq.trans one.slots_eq⟩

theorem Returns.within {entered : NestedRenamer} (returns : Returns before renamer)
    (within : Within entered before) : Within entered renamer := by
  refine ⟨?_, ?_⟩
  · rw [returns.undo_eq, returns.overlay_eq]
    exact within.undo
  · rw [returns.slots_eq]
    exact within.slots

theorem Returns.view_eq (returns : Returns before renamer) (ok : before.Ok) :
    view renamer = view before := by
  have slots (id : ℕ) : slotOf renamer id = slotOf before id := by
    unfold slotOf
    rw [returns.overlay_eq, returns.slots_eq, returns.root_eq]
  funext name
  rw [NestedRenamer.view_eq, NestedRenamer.view_eq]
  rcases returns.ids.2 name with same | ⟨unknown, id, found, fresh⟩
  · rw [same]
    cases idOf before name with
    | none => rfl
    | some id => exact slots id
  · rw [unknown, found]
    dsimp only
    rw [slots]
    have outside : before.overlay id = none := by
      rw [Option.eq_none_iff_forall_ne_some]
      intro index overlaid
      exact absurd (ok.overlay_ids id index overlaid) (Nat.not_lt.mpr fresh)
    unfold slotOf
    rw [outside]
    exact List.getD_eq_default _ _ (ok.ordered.trans fresh)

theorem leave_returns {index : ℕ} (same : SameScope (before.enter index) renamer)
    (within : Within (before.enter index) renamer) : Returns before (renamer.leave before) := by
  obtain ⟨overlay, undo, slots⟩ : (renamer.leave before).overlay = before.overlay ∧
      (renamer.leave before).undo = before.undo ∧ (renamer.leave before).slots = before.slots :=
    within.leave rfl rfl rfl
  exact ⟨⟨⟨same.root_eq, same.uses_eq, same.source_eq, same.ids,
    (Nat.le_succ _).trans same.serials, same.names_kept⟩, rfl, rfl⟩, overlay, undo, slots⟩

theorem leave_ok (returns : Returns before (renamer.leave before)) (okBefore : before.Ok)
    (ok : renamer.Ok) : (renamer.leave before).Ok where
  of_root := ok.of_root
  locals := ok.locals
  ordered := ok.ordered
  overlay_bound := by
    rw [returns.overlay_eq, returns.slots_eq]
    exact okBefore.overlay_bound
  overlay_injective := by
    rw [returns.overlay_eq]
    exact okBefore.overlay_injective
  overlay_ids := by
    intro id index overlaid
    rw [returns.overlay_eq] at overlaid
    exact (okBefore.overlay_ids id index overlaid).trans_le returns.ids.1
  scope_ne := okBefore.scope_ne
  scope_lt := okBefore.scope_lt.trans_le returns.serials
  slots_lt := by
    rw [returns.slots_eq]
    exact fun slot member => (okBefore.slots_lt slot member).trans_le returns.serials

theorem assignNames_within (identifiers : Identifiers) (refs : List Ref) :
    ∀ renamer : NestedRenamer, Within before renamer →
      (∀ slot ∈ before.slots, slot.scope ≠ renamer.scope) →
      Within before (refs.foldl (assignName identifiers) renamer) ∧
        SameScope renamer (refs.foldl (assignName identifiers) renamer) := by
  induction refs with
  | nil => exact fun renamer within _ => ⟨within, SameScope.refl renamer⟩
  | cons ref rest ih =>
      intro renamer within older
      have same := assignName_sameScope identifiers renamer ref
      obtain ⟨inside, later⟩ := ih (assignName identifiers renamer ref)
        (assignName_within identifiers within older ref) (by rw [same.scope_eq]; exact older)
      exact ⟨inside, same.trans later⟩

theorem Ok.assignNames (identifiers : Identifiers) (refs : List Ref) (ok : renamer.Ok) :
    (refs.foldl (NestedRenamer.assignName identifiers) renamer).Ok := by
  induction refs generalizing renamer with
  | nil => exact ok
  | cons ref rest ih => exact ih (ok.assignName identifiers ref)

mutual

theorem assignNamesRecursive_returns (identifiers : Identifiers) (renamer : NestedRenamer)
    (ok : renamer.Ok) (scope : Scope) :
    Returns renamer (assignNamesRecursive identifiers renamer scope) ∧
      (assignNamesRecursive identifiers renamer scope).Ok := by
  cases scope with
  | mk index members generated children =>
      rw [assignNamesRecursive]
      generalize refsOf renamer.sourceIndex members generated = refs
      obtain ⟨within, same⟩ := assignNames_within identifiers refs (renamer.enter index)
        (Within.refl _) (ok.older index)
      obtain ⟨returns, okAfter⟩ := assignNamesOfChildren_returns identifiers
        (refs.foldl (assignName identifiers) (renamer.enter index))
        ((ok.enter index).assignNames identifiers refs) children
      have left := leave_returns (same.trans returns.toSameScope) (returns.within within)
      exact ⟨left, leave_ok left ok okAfter⟩

theorem assignNamesOfChildren_returns (identifiers : Identifiers) (renamer : NestedRenamer)
    (ok : renamer.Ok) (scopes : List Scope) :
    Returns renamer (assignNamesOfChildren identifiers renamer scopes) ∧
      (assignNamesOfChildren identifiers renamer scopes).Ok := by
  cases scopes with
  | nil =>
      rw [assignNamesOfChildren]
      exact ⟨Returns.refl renamer, ok⟩
  | cons child rest =>
      rw [assignNamesOfChildren]
      obtain ⟨first, okFirst⟩ := assignNamesRecursive_returns identifiers renamer ok child
      obtain ⟨later, okLater⟩ := assignNamesOfChildren_returns identifiers
        (assignNamesRecursive identifiers renamer child) okFirst rest
      exact ⟨first.trans later, okLater⟩

end

end NestedRenamer

end Bun.Renamer
