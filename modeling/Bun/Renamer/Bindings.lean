/-
What the names of a file must not do.

A scope declares the symbols it is the first to list.  A name changes a binding when a
symbol between a use and the scope that the used symbol is declared in has the name of
that symbol.
-/

import Bun.Renamer.ScopeVisits

set_option autoImplicit false

namespace Bun.Renamer

/-- The symbols of a list that nobody declared before. -/
def declares (isOwn : Ref → Bool) : List Ref → List Ref → List Ref
  | _, [] => []
  | named, ref :: rest =>
      if isOwn ref && !named.contains ref then ref :: declares isOwn (named ++ [ref]) rest
      else declares isOwn named rest

theorem declares_cons (isOwn : Ref → Bool) (named : List Ref) (ref : Ref) (rest : List Ref) :
    declares isOwn named (ref :: rest) = declares isOwn named [ref] ++
      declares isOwn (named ++ declares isOwn named [ref]) rest := by
  simp only [declares]
  split
  · rfl
  · rw [List.nil_append, List.append_nil]

theorem declares_known {isOwn : Ref → Bool} {named : List Ref} {ref : Ref}
    (known : isOwn ref = true → ref ∈ named) : declares isOwn named [ref] = [] := by
  simp only [declares]
  rw [if_neg]
  simpa using known

theorem declares_new {isOwn : Ref → Bool} {named : List Ref} {ref : Ref}
    (isNew : isOwn ref = true) (unnamed : ref ∉ named) : declares isOwn named [ref] = [ref] := by
  simp only [declares]
  rw [if_pos]
  simpa using ⟨isNew, unnamed⟩

theorem isOwn_of_declares {isOwn : Ref → Bool} {refs named : List Ref} {ref : Ref}
    (member : ref ∈ declares isOwn named refs) : isOwn ref = true := by
  induction refs generalizing named with
  | nil => exact absurd member List.not_mem_nil
  | cons first rest ih =>
      rw [declares] at member
      split at member
      · rename_i both
        rcases List.mem_cons.mp member with rfl | later
        · exact (Bool.and_eq_true_iff.mp both).1
        · exact ih later
      · exact ih member

/-- A scope with the symbols that it declares, then those of the scope around it, and so on
up to the top level. -/
structure Place where
  index : ℕ
  levels : List (List Ref)

def Place.own (place : Place) : List Ref :=
  place.levels.headD []

mutual

/-- The scopes of a tree in the order they are named. -/
def Scope.places (symbols : SymbolMap) (sourceIndex : ℕ) (levels : List (List Ref))
    (named : List Ref) : Scope → List Place
  | .mk index members generated children =>
      let own := declares (NestedRenamer.isOwn symbols sourceIndex) named
        ((NestedRenamer.refsOf sourceIndex members generated).map symbols.follow)
      { index, levels := own :: levels } ::
        placesOfChildren symbols sourceIndex (own :: levels) (named ++ own) children

def placesOfChildren (symbols : SymbolMap) (sourceIndex : ℕ) (levels : List (List Ref))
    (named : List Ref) : List Scope → List Place
  | [] => []
  | child :: rest =>
      let places := child.places symbols sourceIndex levels named
      places ++ placesOfChildren symbols sourceIndex levels (named ++ places.flatMap Place.own) rest

end

def Scope.index : Scope → ℕ
  | .mk index _ _ _ => index

mutual

def Scope.inside : Scope → List Scope
  | .mk index members generated children =>
      .mk index members generated children :: insideOfChildren children

def insideOfChildren : List Scope → List Scope
  | [] => []
  | child :: rest => child.inside ++ insideOfChildren rest

end

/-- A use record misses no use: a symbol that is referenced in a scope or inside it is seen
from the scope. -/
def RecordsUses (uses : Ref → ℕ → Bool) (references : ℕ → Ref → Prop) (scopes : List Scope) :
    Prop :=
  ∀ scope ∈ scopes, ∀ inner ∈ scope.inside, ∀ symbol,
    references inner.index symbol → uses symbol scope.index = true

structure Place.KeepsBindings (nameOf : Ref → Name) (reserved : List Name)
    (references : ℕ → Ref → Prop) (place : Place) : Prop where
  different : ∀ a ∈ place.own, ∀ b ∈ place.own, nameOf a = nameOf b → a = b
  not_reserved : ∀ ref ∈ place.own, nameOf ref ∉ reserved
  uncaptured : place.levels.Pairwise fun inner outer =>
    ∀ symbol ∈ outer, references place.index symbol → ∀ ref ∈ inner, nameOf ref ≠ nameOf symbol

theorem Place.KeepsBindings.congr {nameOf other : Ref → Name} {reserved : List Name}
    {references : ℕ → Ref → Prop} {place : Place}
    (keeps : place.KeepsBindings nameOf reserved references)
    (same : ∀ level ∈ place.levels, ∀ ref ∈ level, other ref = nameOf ref) :
    place.KeepsBindings other reserved references := by
  have ownLevel : ∀ ref ∈ place.own, other ref = nameOf ref := by
    intro ref member
    unfold Place.own at member
    cases levels : place.levels with
    | nil =>
        rw [levels] at member
        exact absurd member List.not_mem_nil
    | cons own outer =>
        rw [levels] at member
        exact same own (by rw [levels]; exact List.mem_cons_self) ref member
  refine ⟨fun a memberA b memberB equal => ?_, fun ref member => ?_, ?_⟩
  · rw [ownLevel a memberA, ownLevel b memberB] at equal
    exact keeps.different a memberA b memberB equal
  · rw [ownLevel ref member]
    exact keeps.not_reserved ref member
  · refine keeps.uncaptured.imp_of_mem ?_
    intro inner outer memberInner memberOuter uncaptured symbol isOuter used ref isInner
    rw [same inner memberInner ref isInner, same outer memberOuter symbol isOuter]
    exact uncaptured symbol isOuter used ref isInner

/-! ### A table and its bindings -/

open NameScopes

/-- What holds in a scope that has declared `own` so far, for the uses inside it. -/
structure Settled {σ : Type} [NameScopes σ] (table : σ) (nameOf : Ref → Name)
    (reserved : List Name) (own : List Ref) (outer : List (List Ref)) (uses : Ref → Prop) :
    Prop where
  guards : Guards (view table) (scope table) nameOf reserved outer.flatten own uses
  different : ∀ a ∈ own, ∀ b ∈ own, nameOf a = nameOf b → a = b
  not_reserved : ∀ ref ∈ own, nameOf ref ∉ reserved
  uncaptured : (own :: outer).Pairwise fun inner around =>
    ∀ symbol ∈ around, uses symbol → ∀ ref ∈ inner, nameOf ref ≠ nameOf symbol

namespace Settled

variable {σ : Type} [NameScopes σ] {table after : σ} {nameOf : Ref → Name} {reserved : List Name}
  {own : List Ref} {outer : List (List Ref)} {uses : Ref → Prop}

theorem place (settled : Settled table nameOf reserved own outer uses)
    {references : ℕ → Ref → Prop} {index : ℕ}
    (inScope : ∀ symbol, references index symbol → uses symbol) :
    ({ index, levels := own :: outer } : Place).KeepsBindings nameOf reserved references where
  different := settled.different
  not_reserved := settled.not_reserved
  uncaptured := settled.uncaptured.imp fun uncaptured symbol isOuter used =>
    uncaptured symbol isOuter (inScope symbol used)

theorem congr (settled : Settled table nameOf reserved own outer uses) {other : Ref → Name}
    {τ : Type} [NameScopes τ] {after : τ}
    (same : ∀ level ∈ own :: outer, ∀ ref ∈ level, other ref = nameOf ref)
    (shows : view after = view table) (inScope : scope after = scope table) :
    Settled after other reserved own outer uses := by
  have sameOwn := same own List.mem_cons_self
  refine ⟨?_, ?_, ?_, ?_⟩
  · rw [shows, inScope]
    apply settled.guards.congr
    rintro ref (around | inOwn)
    · obtain ⟨level, isLevel, member⟩ := List.mem_flatten.mp around
      exact same level (List.mem_cons_of_mem _ isLevel) ref member
    · exact sameOwn ref inOwn
  · intro a memberA b memberB
    rw [sameOwn a memberA, sameOwn b memberB]
    exact settled.different a memberA b memberB
  · intro ref member
    rw [sameOwn ref member]
    exact settled.not_reserved ref member
  · refine settled.uncaptured.imp_of_mem ?_
    intro inner around isInner isAround uncaptured symbol isOuter used ref member
    rw [same inner isInner ref member, same around isAround symbol isOuter]
    exact uncaptured symbol isOuter used ref member

/-- In an inner scope nothing is declared yet, and there are fewer uses inside it. -/
theorem enter (settled : Settled table nameOf reserved own outer uses) {innerUses : Ref → Prop}
    (fewer : ∀ symbol, innerUses symbol → uses symbol) (shows : view after = view table) :
    Settled after nameOf reserved [] (own :: outer) innerUses where
  guards := by
    rw [shows]
    exact settled.guards.enter fewer
  different := fun a member => absurd member List.not_mem_nil
  not_reserved := fun ref member => absurd member List.not_mem_nil
  uncaptured := by
    refine List.Pairwise.cons ?_ (settled.uncaptured.imp ?_)
    · intro around _ symbol _ _ ref member
      exact absurd member List.not_mem_nil
    · intro inner around uncaptured symbol isOuter used
      exact uncaptured symbol isOuter (fewer symbol used)

/-- A symbol that is declared next, when its name is that of no other symbol of the scope
and of no outer symbol in use. -/
theorem declare {ref : Ref} (settled : Settled table nameOf reserved own outer uses)
    (guards : Guards (view after) (scope after) nameOf reserved outer.flatten (own ++ [ref]) uses)
    (notReserved : nameOf ref ∉ reserved) (fresh : ∀ other ∈ own, nameOf other = nameOf ref →
      other = ref)
    (notUsed : ∀ symbol ∈ outer.flatten, nameOf symbol = nameOf ref → ¬ uses symbol) :
    Settled after nameOf reserved (own ++ [ref]) outer uses := by
  refine ⟨guards, ?_, ?_, ?_⟩
  · intro a memberA b memberB equal
    rcases List.mem_append.mp memberA with inOwnA | isNewA
    · rcases List.mem_append.mp memberB with inOwnB | isNewB
      · exact settled.different a inOwnA b inOwnB equal
      · obtain rfl := List.mem_singleton.mp isNewB
        exact fresh a inOwnA equal
    · obtain rfl := List.mem_singleton.mp isNewA
      rcases List.mem_append.mp memberB with inOwnB | isNewB
      · exact (fresh b inOwnB equal.symm).symm
      · exact (List.mem_singleton.mp isNewB).symm
  · intro other member
    rcases List.mem_append.mp member with inOwn | isNew
    · exact settled.not_reserved other inOwn
    · rw [List.mem_singleton.mp isNew]
      exact notReserved
  · obtain ⟨ofOwn, around⟩ := List.pairwise_cons.mp settled.uncaptured
    refine List.Pairwise.cons ?_ around
    intro level isLevel symbol isOuter used other member
    rcases List.mem_append.mp member with inOwn | isNew
    · exact ofOwn level isLevel symbol isOuter used other inOwn
    · rw [List.mem_singleton.mp isNew]
      intro equal
      exact notUsed symbol (List.mem_flatten.mpr ⟨level, isLevel, isOuter⟩) equal.symm used

theorem takes [LawfulNameScopes σ] {ref : Ref} {name : Name}
    (settled : Settled table nameOf reserved own outer uses) (ok : LawfulNameScopes.Ok table)
    (unseen : ∀ symbol, sees table symbol = false → ¬ uses symbol)
    (takes : Takes table after ref name) (isName : nameOf ref = name) :
    Settled after nameOf reserved (own ++ [ref]) outer uses := by
  obtain ⟨notReserved, fresh, notUsed⟩ := settled.guards.takes_free unseen takes
  rw [← isName] at notReserved fresh notUsed
  exact settled.declare (settled.guards.takes_step ok unseen takes isName) notReserved
    (fun other member equal => absurd equal (fresh other member)) notUsed

end Settled

/-! ### Along the visit of a file -/

namespace NestedRenamer

variable {renamer : NestedRenamer} {reserved : List Name} {own : List Ref}
  {outer : List (List Ref)} {named : List Ref} {uses : Ref → Prop}

/-- The name of a symbol while a file is being visited. -/
def nameOf (renamer : NestedRenamer) (ref : Ref) : Name :=
  if ref.sourceIndex = renamer.sourceIndex then renamer.names ref.innerIndex
  else renamer.root.nameForSymbol ref

structure Along (reserved : List Name) (own : List Ref) (outer : List (List Ref))
    (named : List Ref) (uses : Ref → Prop) (renamer : NestedRenamer) : Prop where
  ok : renamer.Ok
  named_iff : ∀ ref : Ref, ref.sourceIndex = renamer.sourceIndex →
    (renamer.names ref.innerIndex ≠ [] ↔ ref ∈ named)
  levels_named : ∀ level ∈ own :: outer, ∀ ref ∈ level, ref ∈ named
  resolved : ∀ ref ∈ named, renamer.root.symbols.follow ref = ref
  settled : Settled renamer renamer.nameOf reserved own outer uses

theorem nameOf_kept {before after : NestedRenamer} (later : Extends before after)
    (named_iff : ∀ ref : Ref, ref.sourceIndex = before.sourceIndex →
      (before.names ref.innerIndex ≠ [] ↔ ref ∈ named))
    {ref : Ref} (member : ref ∈ named) : after.nameOf ref = before.nameOf ref := by
  unfold nameOf
  rw [later.source_eq, later.root_eq]
  split
  · rename_i here
    exact later.names_kept _ ((named_iff ref here).mpr member)
  · rfl

theorem Along.enter (along : Along reserved own outer named uses renamer) {innerUses : Ref → Prop}
    (fewer : ∀ symbol, innerUses symbol → uses symbol) (index : ℕ) :
    Along reserved [] (own :: outer) named innerUses (renamer.enter index) where
  ok := along.ok.enter index
  named_iff := along.named_iff
  levels_named := by
    intro level member ref isRef
    rcases List.mem_cons.mp member with rfl | around
    · exact absurd isRef List.not_mem_nil
    · exact along.levels_named level around ref isRef
  resolved := along.resolved
  settled := along.settled.enter fewer rfl

theorem Along.later {before after : NestedRenamer} {more : List Ref}
    (along : Along reserved own outer named uses before) (returns : Returns before after)
    (ok : after.Ok) (named_iff : ∀ ref : Ref, ref.sourceIndex = after.sourceIndex →
      (after.names ref.innerIndex ≠ [] ↔ ref ∈ named ++ more))
    (resolved : ∀ ref ∈ named ++ more, after.root.symbols.follow ref = ref) :
    Along reserved own outer (named ++ more) uses after where
  ok := ok
  named_iff := named_iff
  levels_named := fun level isLevel ref member =>
    List.mem_append_left _ (along.levels_named level isLevel ref member)
  resolved := resolved
  settled := by
    apply along.settled.congr _ (returns.view_eq along.ok) returns.scope_eq
    intro level isLevel ref member
    exact nameOf_kept returns.toExtends along.named_iff (along.levels_named level isLevel ref member)

theorem isOwn_source {symbols : SymbolMap} {sourceIndex : ℕ} {ref : Ref}
    (isOwn : NestedRenamer.isOwn symbols sourceIndex ref = true) : ref.sourceIndex = sourceIndex := by
  unfold NestedRenamer.isOwn at isOwn
  simp only [Bool.and_eq_true, decide_eq_true_eq] at isOwn
  exact isOwn.1

theorem Along.names_iff_of_new (along : Along reserved own outer named uses renamer)
    {after : NestedRenamer} {ref : Ref} (here : ref.sourceIndex = renamer.sourceIndex)
    (later : Extends renamer after) (given : after.names ref.innerIndex ≠ [])
    (others : ∀ inner, inner ≠ ref.innerIndex → after.names inner = renamer.names inner)
    (other : Ref) (otherHere : other.sourceIndex = after.sourceIndex) :
    after.names other.innerIndex ≠ [] ↔ other ∈ named ++ [ref] := by
  rw [later.source_eq] at otherHere
  rw [List.mem_append, List.mem_singleton, ← along.named_iff other otherHere]
  by_cases same : other = ref
  · subst same
    exact ⟨fun _ => Or.inr rfl, fun _ => given⟩
  · have apart : other.innerIndex ≠ ref.innerIndex := by
      intro equal
      apply same
      cases other
      cases ref
      simp_all
    rw [others _ apart]
    exact ⟨Or.inl, fun which => which.resolve_right same⟩

theorem Along.takes (along : Along reserved own outer named uses renamer)
    (unseen : ∀ symbol, renamer.uses symbol renamer.astScope = false → ¬ uses symbol)
    {found : NestedRenamer} {ref : Ref} {name : Name} (here : ref.sourceIndex = renamer.sourceIndex)
    (resolved : renamer.root.symbols.follow ref = ref)
    (unnamed : renamer.names ref.innerIndex = []) (valid : name ≠ [])
    (same : SameScope renamer found) (names : found.names = renamer.names)
    (takes : Takes renamer found ref name) :
    Along reserved (own ++ [ref]) outer (named ++ [ref]) uses
      (found.setName ref.innerIndex name) := by
  have later : Extends renamer (found.setName ref.innerIndex name) :=
    (same.trans (setName_sameScope (by rw [names]; exact unnamed) name)).toExtends
  have given : (found.setName ref.innerIndex name).names ref.innerIndex = name := if_pos rfl
  have isName : (found.setName ref.innerIndex name).nameOf ref = name := by
    unfold nameOf
    rw [if_pos (here.trans later.source_eq.symm), given]
  have settled : Settled renamer (found.setName ref.innerIndex name).nameOf reserved own outer uses :=
    along.settled.congr (fun level isLevel other member => nameOf_kept later along.named_iff
      (along.levels_named level isLevel other member)) rfl rfl
  refine ⟨Ok.setName takes.ok _ _, ?_, ?_, ?_, ?_⟩
  · exact along.names_iff_of_new here later (by rw [given]; exact valid) fun inner apart =>
      (if_neg apart).trans (congrFun names inner)
  · intro level isLevel other member
    rcases List.mem_cons.mp isLevel with rfl | around
    · rcases List.mem_append.mp member with before | isNew
      · exact List.mem_append_left _ (along.levels_named own List.mem_cons_self other before)
      · exact List.mem_append_right _ isNew
    · exact List.mem_append_left _
        (along.levels_named level (List.mem_cons_of_mem _ around) other member)
  · intro other member
    rw [later.root_eq]
    rcases List.mem_append.mp member with before | isNew
    · exact along.resolved other before
    · rw [List.mem_singleton.mp isNew]
      exact resolved
  · exact (settled.takes along.ok unseen takes isName).congr (fun _ _ _ _ => rfl) rfl rfl

theorem Along.assignName (along : Along reserved own outer named uses renamer)
    (unseen : ∀ symbol, renamer.uses symbol renamer.astScope = false → ¬ uses symbol)
    (identifiers : Identifiers) (inputRef : Ref) {fresh : List Ref}
    (isFresh : declares (isOwn renamer.root.symbols renamer.sourceIndex) named
      [renamer.root.symbols.follow inputRef] = fresh) :
    Along reserved (own ++ fresh) outer (named ++ fresh) uses
      (assignName identifiers renamer inputRef) := by
  subst isFresh
  rcases assignName_cases identifiers renamer inputRef with ⟨same, why⟩ | ⟨isNew, unnamed, changed⟩
  · rw [same, declares_known, List.append_nil, List.append_nil]
    · exact along
    · intro isNew
      rcases why with notOwn | isNamed
      · rw [notOwn] at isNew
        exact absurd isNew (by decide)
      · exact (along.named_iff _ (isOwn_source isNew)).mp isNamed
  · have here := isOwn_source isNew
    rw [declares_new isNew fun member => (along.named_iff _ here).mpr member unnamed, changed]
    exact along.takes unseen here (renamer.root.symbols.follow_follow _) unnamed
      (findUnusedName_ne_nil identifiers renamer _ _)
      (findUnusedName_sameScope identifiers renamer _ _)
      (findUnusedName_names identifiers renamer _ _)
      (findUnusedName_takes identifiers renamer along.ok _ _)

theorem Along.assignNames (identifiers : Identifiers) (inputRefs : List Ref) :
    ∀ {own named : List Ref} {renamer : NestedRenamer},
      Along reserved own outer named uses renamer →
      (∀ symbol, renamer.uses symbol renamer.astScope = false → ¬ uses symbol) →
      Along reserved
        (own ++ declares (isOwn renamer.root.symbols renamer.sourceIndex) named
          (inputRefs.map renamer.root.symbols.follow)) outer
        (named ++ declares (isOwn renamer.root.symbols renamer.sourceIndex) named
          (inputRefs.map renamer.root.symbols.follow)) uses
        (inputRefs.foldl (NestedRenamer.assignName identifiers) renamer) := by
  induction inputRefs with
  | nil =>
      intro own named renamer along _
      simpa [declares] using along
  | cons inputRef rest ih =>
      intro own named renamer along unseen
      have same := assignName_sameScope identifiers renamer inputRef
      have step := along.assignName unseen identifiers inputRef rfl
      have run := ih step (by rw [same.uses_eq, same.astScope_eq]; exact unseen)
      rw [same.root_eq, same.source_eq] at run
      rw [List.map_cons, declares_cons, List.foldl_cons, ← List.append_assoc, ← List.append_assoc]
      exact run

/-- What a visit leaves: the enclosing scope as it was, and every scope that was visited
with its bindings kept. -/
def Visited (reserved : List Name) (own : List Ref) (outer : List (List Ref)) (named : List Ref)
    (uses : Ref → Prop) (references : ℕ → Ref → Prop) (places : List Place)
    (renamer : NestedRenamer) : Prop :=
  Along reserved own outer (named ++ places.flatMap Place.own) uses renamer ∧
    ∀ place ∈ places, place.KeepsBindings renamer.nameOf reserved references ∧
      ∀ level ∈ place.levels, ∀ ref ∈ level, ref ∈ named ++ places.flatMap Place.own

theorem mem_inside_self (scope : Scope) : scope ∈ scope.inside := by
  cases scope with
  | mk index members generated children =>
      rw [Scope.inside]
      exact List.mem_cons_self

theorem mem_inside_of_child {index : ℕ} {members generated : List Ref} {children : List Scope}
    {inner : Scope} (member : inner ∈ insideOfChildren children) :
    inner ∈ Scope.inside (.mk index members generated children) := by
  rw [Scope.inside]
  exact List.mem_cons_of_mem _ member

variable {references : ℕ → Ref → Prop}

def UsedIn (references : ℕ → Ref → Prop) (scope : Scope) (symbol : Ref) : Prop :=
  ∃ inner ∈ scope.inside, references inner.index symbol

/-- The symbols of a scope, once everything below it has been visited. -/
theorem Along.leave {before : NestedRenamer} {fresh : List Ref} {places : List Place} {index : ℕ}
    {innerUses : Ref → Prop} (along : Along reserved own outer named uses before)
    (inScope : ∀ symbol, references index symbol → innerUses symbol)
    (returns : Returns before (renamer.leave before))
    (visited : Visited reserved fresh (own :: outer) (named ++ fresh) innerUses references places
      renamer) :
    Visited reserved own outer named uses references
      ({ index, levels := fresh :: own :: outer } :: places) (renamer.leave before) := by
  obtain ⟨below, keeps⟩ := visited
  have all : named ++ ({ index, levels := fresh :: own :: outer } :: places).flatMap Place.own =
      named ++ fresh ++ places.flatMap Place.own := by
    rw [List.flatMap_cons, List.append_assoc]
    rfl
  unfold Visited
  rw [all, List.append_assoc]
  refine ⟨along.later returns (leave_ok returns along.ok below.ok) ?_ ?_, ?_⟩
  · rw [← List.append_assoc]
    exact below.named_iff
  · rw [← List.append_assoc]
    exact below.resolved
  · rw [← List.append_assoc]
    intro place member
    rcases List.mem_cons.mp member with rfl | isBelow
    · exact ⟨below.settled.place inScope, below.levels_named⟩
    · exact keeps place isBelow

theorem Visited.append {before after : NestedRenamer} {first second : List Place}
    (one : Visited reserved own outer named uses references first before)
    (later : Extends before after)
    (two : Visited reserved own outer (named ++ first.flatMap Place.own) uses references second
      after) :
    Visited reserved own outer named uses references (first ++ second) after := by
  obtain ⟨along, keepsFirst⟩ := one
  obtain ⟨alongAfter, keepsSecond⟩ := two
  unfold Visited
  rw [List.flatMap_append, ← List.append_assoc]
  refine ⟨alongAfter, fun place member => ?_⟩
  rcases List.mem_append.mp member with inFirst | inSecond
  · obtain ⟨keeps, known⟩ := keepsFirst place inFirst
    refine ⟨keeps.congr fun level isLevel ref isRef => ?_, fun level isLevel ref isRef => ?_⟩
    · exact nameOf_kept later along.named_iff (known level isLevel ref isRef)
    · exact List.mem_append_left _ (known level isLevel ref isRef)
  · exact keepsSecond place inSecond

mutual

theorem assignNamesRecursive_visited (identifiers : Identifiers) {own named : List Ref}
    {outer : List (List Ref)} {uses : Ref → Prop} {renamer : NestedRenamer} (scope : Scope)
    (along : Along reserved own outer named uses renamer)
    (recorded : RecordsUses renamer.uses references scope.inside)
    (fewer : ∀ inner ∈ scope.inside, ∀ symbol, references inner.index symbol → uses symbol) :
    Visited reserved own outer named uses references
      (scope.places renamer.root.symbols renamer.sourceIndex (own :: outer) named)
      (assignNamesRecursive identifiers renamer scope) := by
  obtain ⟨returns, _⟩ := assignNamesRecursive_returns identifiers renamer along.ok scope
  cases scope with
  | mk index members generated children =>
      have entered := along.enter (fun symbol ⟨inner, member, used⟩ =>
        fewer inner member symbol used : ∀ symbol, UsedIn references _ symbol → uses symbol) index
      have unseen : ∀ symbol, renamer.uses symbol index = false →
          ¬ UsedIn references (.mk index members generated children) symbol := by
        rintro symbol notSeen ⟨inner, member, used⟩
        have seen := recorded _ (mem_inside_self _) inner member symbol used
        rw [Scope.index, notSeen] at seen
        exact absurd seen (by decide)
      rw [Scope.inside] at recorded
      rw [assignNamesRecursive] at returns ⊢
      rw [Scope.places]
      generalize refsOf renamer.sourceIndex members generated = refs at returns ⊢
      have declared := entered.assignNames identifiers refs unseen
      obtain ⟨_, same⟩ := assignNames_within identifiers refs (renamer.enter index)
        (Within.refl _) (along.ok.older index)
      have below := assignNamesOfChildren_visited identifiers children declared
        (by
          rw [same.uses_eq]
          exact fun scope member => recorded scope (List.mem_cons_of_mem _ member))
        (fun inner member symbol used => ⟨inner, mem_inside_of_child member, used⟩)
      rw [same.root_eq, same.source_eq] at below
      exact along.leave (fun symbol used => ⟨_, mem_inside_self _, used⟩) returns below

theorem assignNamesOfChildren_visited (identifiers : Identifiers) {own named : List Ref}
    {outer : List (List Ref)} {uses : Ref → Prop} {renamer : NestedRenamer} (scopes : List Scope)
    (along : Along reserved own outer named uses renamer)
    (recorded : RecordsUses renamer.uses references (insideOfChildren scopes))
    (fewer : ∀ inner ∈ insideOfChildren scopes, ∀ symbol, references inner.index symbol →
      uses symbol) :
    Visited reserved own outer named uses references
      (placesOfChildren renamer.root.symbols renamer.sourceIndex (own :: outer) named scopes)
      (assignNamesOfChildren identifiers renamer scopes) := by
  cases scopes with
  | nil =>
      rw [assignNamesOfChildren, placesOfChildren]
      unfold Visited
      rw [List.flatMap_nil, List.append_nil]
      exact ⟨along, fun place member => absurd member List.not_mem_nil⟩
  | cons child rest =>
      rw [insideOfChildren] at recorded fewer
      rw [assignNamesOfChildren, placesOfChildren]
      obtain ⟨returns, okChild⟩ := assignNamesRecursive_returns identifiers renamer along.ok child
      have one := assignNamesRecursive_visited identifiers child along
        (fun scope member => recorded scope (List.mem_append_left _ member))
        (fun inner member => fewer inner (List.mem_append_left _ member))
      have two := assignNamesOfChildren_visited identifiers rest one.1
        (by
          rw [returns.uses_eq]
          exact fun scope member => recorded scope (List.mem_append_right _ member))
        (fun inner member => fewer inner (List.mem_append_right _ member))
      rw [returns.root_eq, returns.source_eq] at two
      obtain ⟨later, _⟩ := assignNamesOfChildren_returns identifiers
        (assignNamesRecursive identifiers renamer child) okChild rest
      exact one.append later.toExtends two

end

end NestedRenamer

end Bun.Renamer
