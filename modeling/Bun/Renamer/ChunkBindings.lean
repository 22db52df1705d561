/-
The names of a whole chunk.

The top level is named first.  The files are then named over it, each by itself, and hand
back their names.
-/

import Bun.Renamer.Bindings

set_option autoImplicit false

namespace Bun.Renamer

open NameScopes

/-! ### Naming a chunk -/

structure FileScopes where
  sourceIndex : ℕ
  uses : Ref → ℕ → Bool
  /-- The scopes right below the module scope. -/
  scopes : List Scope

structure Chunk where
  symbols : SymbolMap
  rootNames : List (Name × ℕ)
  filesInChunk : List ℕ
  crossChunkNames : Ref → Option Name
  /-- The bindings that cross chunks: the exports of the chunk, then its imports. -/
  crossing : List Ref
  /-- The top-level symbols of the files, in the order they are added. -/
  topLevel : List Ref
  files : List FileScopes
  /-- A binding that crosses chunks has one name in the whole bundle, which no other such
  binding has and which is not reserved. -/
  cross_followed : ∀ ref name, crossChunkNames ref = some name →
    crossChunkNames (symbols.follow ref) = some name
  cross_different : ∀ a b name, crossChunkNames a = some name → crossChunkNames b = some name →
    symbols.follow a = symbols.follow b
  cross_free : ∀ ref name, crossChunkNames ref = some name →
    name ≠ [] ∧ name ∉ rootNames.map Prod.fst
  files_in_chunk : ∀ file ∈ files, filesInChunk.contains file.sourceIndex = true
  files_different : files.Pairwise fun a b => a.sourceIndex ≠ b.sourceIndex

namespace Chunk

def pin (renamer : NumberRenamer) (ref : Ref) : NumberRenamer :=
  match renamer.crossChunkNames ref with
  | some name => renamer.pinTopLevelSymbol ref name
  | none => renamer

def root (identifiers : Identifiers) (chunk : Chunk) : NumberRenamer :=
  chunk.topLevel.foldl (NumberRenamer.addTopLevelSymbol identifiers)
    (chunk.crossing.foldl pin
      (NumberRenamer.init chunk.symbols chunk.rootNames chunk.filesInChunk chunk.crossChunkNames))

end Chunk

def FileScopes.rename (identifiers : Identifiers) (root : NumberRenamer) (file : FileScopes) :
    NestedRenamer :=
  file.scopes.foldl (NestedRenamer.assignNamesRecursive identifiers)
    (NestedRenamer.new root file.uses file.sourceIndex)

def Chunk.rename (identifiers : Identifiers) (chunk : Chunk) : NumberRenamer :=
  chunk.files.foldl
    (fun renamer file => renamer.absorb (file.rename identifiers (chunk.root identifiers)))
    (chunk.root identifiers)

/-! ### The top level -/

namespace NumberRenamer

/-- Whether a chunk's renamer names a symbol that its links lead to. -/
def isOwn (symbols : SymbolMap) (filesInChunk : List ℕ) (ref : Ref) : Bool :=
  filesInChunk.contains ref.sourceIndex && (symbols.get ref).slotNamespace = .default

structure SameChunk (before renamer : NumberRenamer) : Prop where
  symbols_eq : renamer.symbols = before.symbols
  files_eq : renamer.filesInChunk = before.filesInChunk
  cross_eq : renamer.crossChunkNames = before.crossChunkNames

theorem SameChunk.refl (renamer : NumberRenamer) : SameChunk renamer renamer :=
  ⟨rfl, rfl, rfl⟩

theorem SameChunk.trans {first second third : NumberRenamer} (one : SameChunk first second)
    (two : SameChunk second third) : SameChunk first third :=
  ⟨two.symbols_eq.trans one.symbols_eq, two.files_eq.trans one.files_eq,
    two.cross_eq.trans one.cross_eq⟩

theorem place_frame (renamer : NumberRenamer) (name : Name) (slot : NameSlot) :
    SameChunk renamer (place renamer name slot) ∧
      (place renamer name slot).names = renamer.names := by
  rcases place_cases renamer name slot with ⟨id, _, placed⟩ | ⟨_, placed⟩
  · rw [placed]
    exact ⟨⟨rfl, rfl, rfl⟩, rfl⟩
  · rw [placed]
    exact ⟨⟨rfl, rfl, rfl⟩, rfl⟩

theorem findUnusedName_frame (identifiers : Identifiers) (renamer : NumberRenamer)
    (inputName : Name) (owner : Ref) :
    SameChunk renamer (findUnusedName identifiers renamer inputName owner).2 ∧
      (findUnusedName identifiers renamer inputName owner).2.names = renamer.names := by
  refine findUnusedName_induct (motive := fun table : NumberRenamer =>
      SameChunk renamer table ∧ table.names = renamer.names)
    identifiers renamer inputName owner ⟨SameChunk.refl renamer, rfl⟩ ?_
  intro table name slot ⟨same, names⟩
  obtain ⟨placed, namesPlaced⟩ := place_frame table name slot
  exact ⟨same.trans placed, namesPlaced.trans names⟩

theorem addTopLevelSymbol_cases (identifiers : Identifiers) (renamer : NumberRenamer)
    (inputRef : Ref) :
    let ref := renamer.symbols.follow inputRef
    let found := findUnusedName identifiers renamer (renamer.symbols.get ref).originalName ref
    (addTopLevelSymbol identifiers renamer inputRef = renamer ∧
      (isOwn renamer.symbols renamer.filesInChunk ref = false ∨ renamer.names ref ≠ [])) ∨
    (isOwn renamer.symbols renamer.filesInChunk ref = true ∧ renamer.names ref = [] ∧
      addTopLevelSymbol identifiers renamer inputRef = found.2.storeName ref found.1) := by
  unfold addTopLevelSymbol isOwn inChunk
  dsimp only
  generalize renamer.symbols.follow inputRef = ref
  split
  · rename_i elsewhere
    exact Or.inl ⟨rfl, Or.inl (by simp_all)⟩
  · rename_i here
    split
    · rename_i named
      exact Or.inl ⟨rfl, Or.inr (by simpa using named)⟩
    · rename_i unnamed
      split
      · rename_i notDefault
        exact Or.inl ⟨rfl, Or.inl (by simp [notDefault])⟩
      · rename_i isDefault
        refine Or.inr ⟨?_, by simpa using unnamed, rfl⟩
        rw [Bool.and_eq_true, decide_eq_true_eq]
        exact ⟨by simpa using here, of_not_not isDefault⟩

structure TopLevel (reserved : List Name) (own : List Ref) (renamer : NumberRenamer) : Prop where
  ok : renamer.Ok
  named_iff : ∀ ref : Ref, renamer.inChunk ref.sourceIndex = true →
    (renamer.names ref ≠ [] ↔ ref ∈ own)
  resolved : ∀ ref ∈ own, renamer.symbols.follow ref = ref
  settled : Settled renamer renamer.nameForSymbol reserved own [] fun _ => True

theorem nameForSymbol_named {renamer : NumberRenamer} {ref : Ref}
    (resolved : renamer.symbols.follow ref = ref) (here : renamer.inChunk ref.sourceIndex = true)
    (named : renamer.names ref ≠ []) : renamer.nameForSymbol ref = renamer.names ref := by
  unfold nameForSymbol
  dsimp only
  rw [resolved, here]
  simp [named]

theorem nameForSymbol_crossing {renamer : NumberRenamer} {ref : Ref} {name : Name}
    (resolved : renamer.symbols.follow ref = ref) (away : renamer.inChunk ref.sourceIndex = false)
    (isDefault : (renamer.symbols.get ref).slotNamespace = .default)
    (crossing : renamer.crossChunkNames ref = some name) : renamer.nameForSymbol ref = name := by
  unfold nameForSymbol
  dsimp only
  rw [resolved, away]
  simp [isDefault, crossing]

theorem nameForSymbol_kept {before renamer : NumberRenamer} (same : SameChunk before renamer)
    {ref : Ref} (kept : before.inChunk (before.symbols.follow ref).sourceIndex = true →
      renamer.names (before.symbols.follow ref) = before.names (before.symbols.follow ref)) :
    renamer.nameForSymbol ref = before.nameForSymbol ref := by
  unfold nameForSymbol inChunk at *
  dsimp only at *
  rw [same.symbols_eq, same.files_eq, same.cross_eq]
  cases here : before.filesInChunk.contains (before.symbols.follow ref).sourceIndex with
  | false => rfl
  | true => rw [kept here]

theorem reserve_all (rootNames : List (Name × ℕ)) :
    ∀ (renamer : NumberRenamer) (reserved : List Name), renamer.Ok →
      (∀ name ∈ reserved, (view renamer name).scope ≠ noScope ∧ (view renamer name).owner = none) →
      let after := rootNames.foldl (fun renamer (key, count) =>
        place renamer key { scope := rootScope, count, owner := none }) renamer
      after.Ok ∧ SameChunk renamer after ∧ after.names = renamer.names ∧
        ∀ name ∈ reserved ++ rootNames.map Prod.fst,
          (view after name).scope ≠ noScope ∧ (view after name).owner = none := by
  induction rootNames with
  | nil =>
      intro renamer reserved ok held
      rw [List.map_nil, List.append_nil]
      exact ⟨ok, SameChunk.refl renamer, rfl, held⟩
  | cons entry rest ih =>
      intro renamer reserved ok held
      obtain ⟨key, count⟩ := entry
      have slotScope : ({ scope := rootScope, count, owner := none } : NameSlot).scope =
          scope renamer := rfl
      obtain ⟨placed, namesPlaced⟩ := place_frame renamer key
        { scope := rootScope, count, owner := none }
      obtain ⟨okAfter, same, names, heldAfter⟩ := ih
        (place renamer key { scope := rootScope, count, owner := none }) (reserved ++ [key])
        (LawfulNameScopes.place_ok renamer key _ ok slotScope) (by
          intro name member
          by_cases isKey : name = key
          · rw [isKey, LawfulNameScopes.view_place renamer key _ ok slotScope]
            exact ⟨Nat.one_ne_zero, rfl⟩
          · rw [LawfulNameScopes.view_place_other renamer key name _ ok slotScope isKey]
            rcases List.mem_append.mp member with before | last
            · exact held name before
            · exact absurd (List.mem_singleton.mp last) isKey)
      refine ⟨okAfter, placed.trans same, names.trans namesPlaced, ?_⟩
      rw [List.map_cons, ← List.singleton_append, ← List.append_assoc]
      exact heldAfter

theorem init_topLevel (symbols : SymbolMap) (rootNames : List (Name × ℕ)) (filesInChunk : List ℕ)
    (crossChunkNames : Ref → Option Name) :
    TopLevel (rootNames.map Prod.fst) [] (init symbols rootNames filesInChunk crossChunkNames) ∧
      SameChunk { symbols, filesInChunk, crossChunkNames }
        (init symbols rootNames filesInChunk crossChunkNames) := by
  obtain ⟨ok, same, names, held⟩ := reserve_all rootNames
    { symbols, filesInChunk, crossChunkNames } [] (Interned.nil 0 0)
    (fun name member => absurd member List.not_mem_nil)
  refine ⟨⟨ok, ?_, fun ref member => absurd member List.not_mem_nil, ?_⟩, same⟩
  · intro ref _
    unfold init
    rw [names]
    simp
  · refine ⟨⟨held, ?_, ?_⟩, ?_, ?_, ?_⟩
    · exact fun ref member => absurd member List.not_mem_nil
    · rintro ref (outer | current)
      · exact absurd outer List.not_mem_nil
      · exact absurd current List.not_mem_nil
    · exact fun a member => absurd member List.not_mem_nil
    · exact fun a member => absurd member List.not_mem_nil
    · exact List.pairwise_singleton _ _

theorem TopLevel.named_iff_of_store {reserved : List Name} {own : List Ref}
    {renamer after : NumberRenamer} (top : TopLevel reserved own renamer)
    (same : SameChunk renamer after) {ref : Ref}
    (given : renamer.inChunk ref.sourceIndex = true → after.names ref ≠ [])
    (others : ∀ other, other ≠ ref → after.names other = renamer.names other) (other : Ref)
    (here : after.inChunk other.sourceIndex = true) :
    after.names other ≠ [] ↔ other ∈ own ++ [ref] := by
  unfold inChunk at here given
  rw [same.files_eq] at here
  rw [List.mem_append, List.mem_singleton]
  by_cases isRef : other = ref
  · subst isRef
    exact ⟨fun _ => Or.inr rfl, fun _ => given here⟩
  · rw [others other isRef, top.named_iff other here]
    exact ⟨Or.inl, fun which => which.resolve_right isRef⟩

theorem TopLevel.resolved_append {reserved : List Name} {own : List Ref}
    {renamer after : NumberRenamer} (top : TopLevel reserved own renamer)
    (same : SameChunk renamer after) {ref : Ref} (resolved : renamer.symbols.follow ref = ref)
    (other : Ref) (member : other ∈ own ++ [ref]) : after.symbols.follow other = other := by
  rw [same.symbols_eq]
  rcases List.mem_append.mp member with before | isNew
  · exact top.resolved other before
  · rw [List.mem_singleton.mp isNew]
    exact resolved

theorem TopLevel.add {reserved : List Name} {own : List Ref} {renamer : NumberRenamer}
    (top : TopLevel reserved own renamer) (identifiers : Identifiers) (inputRef : Ref)
    {fresh : List Ref}
    (isFresh : declares (isOwn renamer.symbols renamer.filesInChunk) own
      [renamer.symbols.follow inputRef] = fresh) :
    TopLevel reserved (own ++ fresh) (addTopLevelSymbol identifiers renamer inputRef) ∧
      SameChunk renamer (addTopLevelSymbol identifiers renamer inputRef) := by
  subst isFresh
  have chunkFile {ref : Ref} (isNew : isOwn renamer.symbols renamer.filesInChunk ref = true) :
      renamer.inChunk ref.sourceIndex = true := by
    unfold isOwn at isNew
    rw [Bool.and_eq_true] at isNew
    exact isNew.1
  rcases addTopLevelSymbol_cases identifiers renamer inputRef with
    ⟨unchanged, why⟩ | ⟨isNew, unnamed, changed⟩
  · rw [unchanged, declares_known, List.append_nil]
    · exact ⟨top, SameChunk.refl renamer⟩
    · intro isNew
      rcases why with notOwn | isNamed
      · rw [notOwn] at isNew
        exact absurd isNew (by decide)
      · exact (top.named_iff _ (chunkFile isNew)).mp isNamed
  · have here := chunkFile isNew
    have resolved := renamer.symbols.follow_follow inputRef
    generalize renamer.symbols.follow inputRef = ref at *
    have notOwn : ref ∉ own := fun member => (top.named_iff ref here).mpr member unnamed
    rw [declares_new isNew notOwn, changed]
    have takes := findUnusedName_takes identifiers renamer top.ok
      (renamer.symbols.get ref).originalName ref
    have valid := findUnusedName_ne_nil identifiers renamer
      (renamer.symbols.get ref).originalName ref
    obtain ⟨frame, names⟩ := findUnusedName_frame identifiers renamer
      (renamer.symbols.get ref).originalName ref
    generalize findUnusedName identifiers renamer (renamer.symbols.get ref).originalName ref =
      found at *
    have same : SameChunk renamer (found.2.storeName ref found.1) :=
      ⟨frame.symbols_eq, frame.files_eq, frame.cross_eq⟩
    have given : (found.2.storeName ref found.1).names ref = found.1 := if_pos rfl
    have others : ∀ other, other ≠ ref →
        (found.2.storeName ref found.1).names other = renamer.names other :=
      fun other apart => (if_neg apart).trans (congrFun names other)
    have isName : (found.2.storeName ref found.1).nameForSymbol ref = found.1 := by
      rw [nameForSymbol_named (by rw [same.symbols_eq]; exact resolved)
        (by unfold inChunk; rw [same.files_eq]; exact here) (by rw [given]; exact valid), given]
    have settled : Settled renamer (found.2.storeName ref found.1).nameForSymbol reserved own []
        fun _ => True := by
      refine top.settled.congr ?_ rfl rfl
      intro level isLevel other member
      rw [List.mem_singleton.mp isLevel] at member
      apply nameForSymbol_kept same
      intro _
      rw [top.resolved other member]
      exact others other fun isRef => notOwn (isRef ▸ member)
    refine ⟨⟨takes.ok, ?_, top.resolved_append same resolved, ?_⟩, same⟩
    · exact top.named_iff_of_store same (fun _ => by rw [given]; exact valid) others
    · exact (settled.takes top.ok (fun _ (notSeen : true = false) => absurd notSeen (by decide)) takes
        isName).congr (fun _ _ _ _ => rfl) rfl rfl

/-- While only names that cross chunks have been given. -/
structure Pinned (reserved : List Name) (own : List Ref) (renamer : NumberRenamer) : Prop
    extends TopLevel reserved own renamer where
  crossing : ∀ ref ∈ own, renamer.crossChunkNames ref = some (renamer.nameForSymbol ref)

theorem pinTopLevelSymbol_frame (renamer : NumberRenamer) (inputRef : Ref) (name : Name) :
    SameChunk renamer (pinTopLevelSymbol renamer inputRef name) := by
  unfold pinTopLevelSymbol
  dsimp only
  split
  · exact SameChunk.refl renamer
  · obtain ⟨frame, _⟩ := place_frame renamer name
      { scope := rootScope, count := 1, owner := some (renamer.symbols.follow inputRef) }
    split
    · exact ⟨frame.symbols_eq, frame.files_eq, frame.cross_eq⟩
    · exact frame

theorem pinTopLevelSymbol_default {renamer : NumberRenamer} {inputRef ref : Ref} (name : Name)
    (isRef : renamer.symbols.follow inputRef = ref)
    (isDefault : (renamer.symbols.get ref).slotNamespace = .default) :
    let after := pinTopLevelSymbol renamer inputRef name
    let placed := place renamer name { scope := rootScope, count := 1, owner := some ref }
    view after = view placed ∧ (placed.Ok → after.Ok) ∧
      (renamer.inChunk ref.sourceIndex = true → after.names ref = name) ∧
      ∀ other, other ≠ ref → after.names other = renamer.names other := by
  obtain ⟨frame, names⟩ := place_frame renamer name
    { scope := rootScope, count := 1, owner := some ref }
  unfold pinTopLevelSymbol
  dsimp only
  rw [isRef, if_neg (by simp [isDefault])]
  cases here : renamer.inChunk ref.sourceIndex with
  | true =>
      refine ⟨rfl, id, fun _ => if_pos rfl, fun other apart => ?_⟩
      exact (if_neg apart).trans (congrFun names other)
  | false => exact ⟨rfl, id, fun impossible => absurd impossible (by decide),
      fun other _ => congrFun names other⟩

theorem Pinned.pin {reserved : List Name} {own : List Ref} {renamer : NumberRenamer}
    (pinned : Pinned reserved own renamer) {inputRef ref : Ref} {name : Name}
    (isRef : renamer.symbols.follow inputRef = ref)
    (isDefault : (renamer.symbols.get ref).slotNamespace = .default)
    (isCrossing : renamer.crossChunkNames ref = some name) (valid : name ≠ [])
    (notReserved : name ∉ reserved)
    (apart : ∀ other ∈ own, renamer.crossChunkNames other = some name → other = ref) :
    Pinned reserved (own ++ [ref]) (pinTopLevelSymbol renamer inputRef name) := by
  have resolved : renamer.symbols.follow ref = ref := by
    rw [← isRef]
    exact renamer.symbols.follow_follow inputRef
  have same := pinTopLevelSymbol_frame renamer inputRef name
  obtain ⟨shows, ok, given, others⟩ := pinTopLevelSymbol_default name isRef isDefault
  generalize pinTopLevelSymbol renamer inputRef name = after at *
  have isName : after.nameForSymbol ref = name := by
    have resolvedAfter : after.symbols.follow ref = ref := by
      rw [same.symbols_eq]
      exact resolved
    cases here : renamer.inChunk ref.sourceIndex with
    | true =>
        have named : after.names ref = name := given here
        rw [nameForSymbol_named resolvedAfter (by unfold inChunk; rw [same.files_eq]; exact here)
          (by rw [named]; exact valid), named]
    | false =>
        exact nameForSymbol_crossing resolvedAfter
          (by unfold inChunk; rw [same.files_eq]; exact here)
          (by rw [same.symbols_eq]; exact isDefault) (by rw [same.cross_eq]; exact isCrossing)
  have kept : ∀ other ∈ own, after.nameForSymbol other = renamer.nameForSymbol other := by
    intro other member
    by_cases again : other = ref
    · subst again
      have before := pinned.crossing other member
      rw [isCrossing] at before
      rw [isName]
      exact Option.some_inj.mp before
    · apply nameForSymbol_kept same
      intro _
      rw [pinned.resolved other member]
      exact others other again
  have settled : Settled renamer after.nameForSymbol reserved own [] fun _ => True :=
    pinned.settled.congr (fun level isLevel other member =>
      kept other (List.mem_singleton.mp isLevel ▸ member)) rfl rfl
  have fresh : ∀ other ∈ own, after.nameForSymbol other = after.nameForSymbol ref →
      other = ref := by
    intro other member equal
    rw [isName, kept other member] at equal
    exact apart other member (equal ▸ pinned.crossing other member)
  have guards := settled.guards.place pinned.ok (by rw [isName]; exact notReserved) (by
    rintro other (outer | current)
    · exact absurd outer List.not_mem_nil
    · exact fresh other current)
  rw [isName] at guards
  refine ⟨⟨ok (LawfulNameScopes.place_ok renamer name _ pinned.ok rfl), ?_,
    pinned.resolved_append same resolved, ?_⟩, ?_⟩
  · exact pinned.named_iff_of_store same (fun here => by rw [given here]; exact valid) others
  · refine settled.declare ?_ (by rw [isName]; exact notReserved) fresh
      (fun symbol member => absurd member List.not_mem_nil)
    rw [shows]
    exact guards
  · intro other member
    rw [same.cross_eq]
    rcases List.mem_append.mp member with before | isNew
    · rw [kept other before]
      exact pinned.crossing other before
    · rw [List.mem_singleton.mp isNew, isName]
      exact isCrossing

end NumberRenamer

namespace Chunk

def crossingSymbols (chunk : Chunk) : List Ref :=
  chunk.crossing.flatMap fun ref =>
    if (chunk.crossChunkNames ref).isSome ∧
        (chunk.symbols.get (chunk.symbols.follow ref)).slotNamespace = .default then
      [chunk.symbols.follow ref]
    else []

def topLevelSymbols (chunk : Chunk) : List Ref :=
  chunk.crossingSymbols ++
    declares (NumberRenamer.isOwn chunk.symbols chunk.filesInChunk) chunk.crossingSymbols
      (chunk.topLevel.map chunk.symbols.follow)

def reserved (chunk : Chunk) : List Name :=
  chunk.rootNames.map Prod.fst

def start (chunk : Chunk) : NumberRenamer where
  symbols := chunk.symbols
  filesInChunk := chunk.filesInChunk
  crossChunkNames := chunk.crossChunkNames

open NumberRenamer

theorem pin_pinned (chunk : Chunk) {own : List Ref} {renamer : NumberRenamer}
    (pinned : Pinned chunk.reserved own renamer) (same : SameChunk chunk.start renamer) (ref : Ref) :
    Pinned chunk.reserved (own ++
        if (chunk.crossChunkNames ref).isSome ∧
            (chunk.symbols.get (chunk.symbols.follow ref)).slotNamespace = .default then
          [chunk.symbols.follow ref]
        else []) (pin renamer ref) ∧ SameChunk chunk.start (pin renamer ref) := by
  have cross : renamer.crossChunkNames = chunk.crossChunkNames := same.cross_eq
  have symbols : renamer.symbols = chunk.symbols := same.symbols_eq
  unfold pin
  rw [cross]
  cases found : chunk.crossChunkNames ref with
  | none =>
      rw [if_neg (fun both => absurd both.1 (by decide)), List.append_nil]
      exact ⟨pinned, same⟩
  | some name =>
      refine ⟨?_, same.trans (pinTopLevelSymbol_frame renamer ref name)⟩
      by_cases isDefault :
          (chunk.symbols.get (chunk.symbols.follow ref)).slotNamespace = .default
      · rw [if_pos ⟨rfl, isDefault⟩]
        obtain ⟨valid, notReserved⟩ := chunk.cross_free ref name found
        refine pinned.pin (by rw [symbols]) (by rw [symbols]; exact isDefault)
          (by rw [cross]; exact chunk.cross_followed ref name found) valid notReserved ?_
        intro other member isCrossing
        rw [cross] at isCrossing
        have resolved := pinned.resolved other member
        rw [symbols] at resolved
        rw [← resolved]
        exact chunk.cross_different other ref name isCrossing found
      · rw [if_neg fun both => isDefault both.2, List.append_nil]
        have unchanged : pinTopLevelSymbol renamer ref name = renamer := by
          unfold pinTopLevelSymbol
          dsimp only
          rw [symbols, if_pos isDefault]
        dsimp only
        rw [unchanged]
        exact pinned

theorem pins_pinned (chunk : Chunk) (refs : List Ref) :
    ∀ {own : List Ref} {renamer : NumberRenamer}, Pinned chunk.reserved own renamer →
      SameChunk chunk.start renamer →
      Pinned chunk.reserved (own ++ refs.flatMap fun ref =>
        if (chunk.crossChunkNames ref).isSome ∧
            (chunk.symbols.get (chunk.symbols.follow ref)).slotNamespace = .default then
          [chunk.symbols.follow ref]
        else []) (refs.foldl pin renamer) ∧ SameChunk chunk.start (refs.foldl pin renamer) := by
  induction refs with
  | nil =>
      intro own renamer pinned same
      rw [List.flatMap_nil, List.append_nil]
      exact ⟨pinned, same⟩
  | cons ref rest ih =>
      intro own renamer pinned same
      obtain ⟨next, sameNext⟩ := chunk.pin_pinned pinned same ref
      rw [List.flatMap_cons, ← List.append_assoc]
      exact ih next sameNext

theorem adds_topLevel (identifiers : Identifiers) (chunk : Chunk) (refs : List Ref) :
    ∀ {own : List Ref} {renamer : NumberRenamer}, TopLevel chunk.reserved own renamer →
      SameChunk chunk.start renamer →
      TopLevel chunk.reserved
          (own ++ declares (NumberRenamer.isOwn chunk.symbols chunk.filesInChunk) own
            (refs.map chunk.symbols.follow))
          (refs.foldl (addTopLevelSymbol identifiers) renamer) ∧
        SameChunk chunk.start (refs.foldl (addTopLevelSymbol identifiers) renamer) := by
  induction refs with
  | nil =>
      intro own renamer top same
      rw [List.map_nil, declares, List.append_nil]
      exact ⟨top, same⟩
  | cons ref rest ih =>
      intro own renamer top same
      have symbols : renamer.symbols = chunk.symbols := same.symbols_eq
      have files : renamer.filesInChunk = chunk.filesInChunk := same.files_eq
      obtain ⟨next, frame⟩ := top.add identifiers ref rfl
      rw [symbols, files] at next
      rw [List.map_cons, declares_cons, ← List.append_assoc]
      exact ih next (same.trans frame)

theorem root_topLevel (identifiers : Identifiers) (chunk : Chunk) :
    TopLevel chunk.reserved chunk.topLevelSymbols (chunk.root identifiers) ∧
      SameChunk chunk.start (chunk.root identifiers) := by
  obtain ⟨first, same⟩ := init_topLevel chunk.symbols chunk.rootNames chunk.filesInChunk
    chunk.crossChunkNames
  obtain ⟨pinned, samePinned⟩ := chunk.pins_pinned chunk.crossing
    ⟨first, fun ref member => absurd member List.not_mem_nil⟩ same
  exact chunk.adds_topLevel identifiers chunk.topLevel pinned.toTopLevel samePinned

end Chunk

/-! ### The files over the top level -/

namespace NestedRenamer

open NumberRenamer

theorem new_ok {root : NumberRenamer} (ok : root.Ok) (uses : Ref → ℕ → Bool) (sourceIndex : ℕ) :
    (new root uses sourceIndex).Ok where
  of_root := ok
  locals := Interned.nil _ _
  ordered := Nat.le_refl _
  overlay_bound := fun _ _ found => absurd found (by simp [new])
  overlay_injective := fun _ _ _ found => absurd found (by simp [new])
  overlay_ids := fun _ _ found => absurd found (by simp [new])
  scope_ne := Nat.one_ne_zero
  scope_lt := Nat.lt_succ_self _
  slots_lt := fun _ member => absurd member List.not_mem_nil

theorem new_view (root : NumberRenamer) (uses : Ref → ℕ → Bool) (sourceIndex : ℕ) :
    view (new root uses sourceIndex) = view root := by
  funext name
  rw [NestedRenamer.view_eq, NumberRenamer.view_eq, idOf_eq]
  cases found : root.ids.lookup name with
  | none =>
      rw [show (new root uses sourceIndex).root = root from rfl, found]
      rfl
  | some id =>
      rw [show (new root uses sourceIndex).root = root from rfl, found]
      rfl

theorem new_along {root : NumberRenamer} {reserved : List Name} {own : List Ref}
    (top : TopLevel reserved own root) (uses : Ref → ℕ → Bool) {sourceIndex : ℕ}
    (here : root.inChunk sourceIndex = true) :
    Along reserved own [] own (fun _ => True) (new root uses sourceIndex) := by
  have names (ref : Ref) (inFile : ref.sourceIndex = sourceIndex) :
      (new root uses sourceIndex).names ref.innerIndex = root.names ref := by
    subst inFile
    exact if_pos here
  refine ⟨new_ok top.ok uses sourceIndex, ?_, ?_, top.resolved, ?_⟩
  · intro ref inFile
    rw [names ref inFile]
    exact top.named_iff ref (by rw [show ref.sourceIndex = sourceIndex from inFile]; exact here)
  · intro level isLevel ref member
    rw [List.mem_singleton.mp isLevel] at member
    exact member
  · refine top.settled.congr ?_ (new_view root uses sourceIndex) rfl
    intro level isLevel ref member
    rw [List.mem_singleton.mp isLevel] at member
    unfold nameOf
    split
    · rename_i inFile
      have inChunk : root.inChunk ref.sourceIndex = true := by
        rw [show ref.sourceIndex = sourceIndex from inFile]
        exact here
      rw [names ref inFile, nameForSymbol_named (top.resolved ref member) inChunk
        ((top.named_iff ref inChunk).mpr member)]
    · rfl

theorem assignNamesOfChildren_eq_foldl (identifiers : Identifiers) (scopes : List Scope) :
    ∀ renamer : NestedRenamer, scopes.foldl (assignNamesRecursive identifiers) renamer =
      assignNamesOfChildren identifiers renamer scopes := by
  induction scopes with
  | nil =>
      intro renamer
      rw [assignNamesOfChildren]
      rfl
  | cons child rest ih =>
      intro renamer
      rw [assignNamesOfChildren, List.foldl_cons]
      exact ih _

end NestedRenamer

theorem FileScopes.rename_visited (identifiers : Identifiers) {root : NumberRenamer}
    {reserved : List Name} {own : List Ref} {references : ℕ → Ref → Prop} (file : FileScopes)
    (top : NumberRenamer.TopLevel reserved own root) (here : root.inChunk file.sourceIndex = true)
    (recorded : RecordsUses file.uses references (insideOfChildren file.scopes)) :
    NestedRenamer.Visited reserved own [] own (fun _ => True) references
      (placesOfChildren root.symbols file.sourceIndex [own] own file.scopes)
      (file.rename identifiers root) := by
  unfold FileScopes.rename
  rw [NestedRenamer.assignNamesOfChildren_eq_foldl]
  exact NestedRenamer.assignNamesOfChildren_visited identifiers file.scopes
    (NestedRenamer.new_along top file.uses here) recorded fun _ _ _ _ => trivial

theorem FileScopes.rename_extends (identifiers : Identifiers) {root : NumberRenamer} (ok : root.Ok)
    (file : FileScopes) :
    NestedRenamer.Extends (NestedRenamer.new root file.uses file.sourceIndex)
      (file.rename identifiers root) := by
  unfold FileScopes.rename
  rw [NestedRenamer.assignNamesOfChildren_eq_foldl]
  exact (NestedRenamer.assignNamesOfChildren_returns identifiers _
    (NestedRenamer.new_ok ok file.uses file.sourceIndex) file.scopes).1.toExtends

/-! ### The files handed back -/

namespace NumberRenamer

theorem absorb_frame (renamer : NumberRenamer) (nested : NestedRenamer) :
    SameChunk renamer (renamer.absorb nested) := by
  unfold absorb
  split
  · exact ⟨rfl, rfl, rfl⟩
  · exact SameChunk.refl renamer

theorem absorb_names_other {renamer : NumberRenamer} {nested : NestedRenamer} {ref : Ref}
    (elsewhere : ref.sourceIndex ≠ nested.sourceIndex) :
    (renamer.absorb nested).names ref = renamer.names ref := by
  unfold absorb
  split
  · exact if_neg elsewhere
  · rfl

theorem absorb_names {renamer : NumberRenamer} {nested : NestedRenamer} {ref : Ref}
    (inChunk : renamer.inChunk nested.sourceIndex = true)
    (inFile : ref.sourceIndex = nested.sourceIndex) :
    (renamer.absorb nested).names ref = nested.names ref.innerIndex := by
  unfold absorb
  rw [if_pos inChunk]
  exact if_pos inFile

end NumberRenamer

namespace Chunk

open NumberRenamer

theorem rename_source (identifiers : Identifiers) {root : NumberRenamer} (ok : root.Ok)
    (file : FileScopes) : (file.rename identifiers root).sourceIndex = file.sourceIndex :=
  (file.rename_extends identifiers ok).source_eq

theorem absorbs_names (identifiers : Identifiers) {root : NumberRenamer} (ok : root.Ok) (files : List FileScopes) :
    ∀ renamer : NumberRenamer,
      let after := files.foldl
        (fun renamer file => renamer.absorb (file.rename identifiers root)) renamer
      SameChunk renamer after ∧
        (∀ ref : Ref, (∀ file ∈ files, file.sourceIndex ≠ ref.sourceIndex) →
          after.names ref = renamer.names ref) ∧
        (files.Pairwise (fun a b => a.sourceIndex ≠ b.sourceIndex) → ∀ file ∈ files,
          renamer.inChunk file.sourceIndex = true → ∀ ref : Ref,
          ref.sourceIndex = file.sourceIndex →
            after.names ref = (file.rename identifiers root).names ref.innerIndex) := by
  induction files with
  | nil =>
      intro renamer
      exact ⟨SameChunk.refl renamer, fun _ _ => rfl,
        fun _ file member => absurd member List.not_mem_nil⟩
  | cons first rest ih =>
      intro renamer
      have source := rename_source identifiers ok first
      have frame := absorb_frame renamer (first.rename identifiers root)
      obtain ⟨same, others, own⟩ := ih (renamer.absorb (first.rename identifiers root))
      refine ⟨frame.trans same, ?_, ?_⟩
      · intro ref elsewhere
        refine (others ref fun file member => elsewhere file (List.mem_cons_of_mem _ member)).trans ?_
        apply absorb_names_other
        rw [source]
        exact fun inFile => elsewhere first List.mem_cons_self inFile.symm
      · intro different file member inChunk ref inFile
        obtain ⟨apart, differentRest⟩ := List.pairwise_cons.mp different
        rcases List.mem_cons.mp member with rfl | later
        · refine (others ref fun other isOther => ?_).trans (absorb_names ?_ ?_)
          · rw [inFile]
            exact (apart other isOther).symm
          · rw [source]
            exact inChunk
          · rw [source]
            exact inFile
        · refine own differentRest file later ?_ ref inFile
          unfold NumberRenamer.inChunk at inChunk ⊢
          rw [frame.files_eq]
          exact inChunk

theorem rename_topLevel (identifiers : Identifiers) (chunk : Chunk) {ref : Ref}
    (member : ref ∈ chunk.topLevelSymbols) :
    (chunk.rename identifiers).nameForSymbol ref = (chunk.root identifiers).nameForSymbol ref := by
  obtain ⟨top, sameRoot⟩ := chunk.root_topLevel identifiers
  have files : (chunk.root identifiers).filesInChunk = chunk.filesInChunk := sameRoot.files_eq
  obtain ⟨same, others, own⟩ := absorbs_names identifiers top.ok chunk.files
    (chunk.root identifiers)
  apply nameForSymbol_kept same
  rw [top.resolved ref member]
  intro inChunk
  by_cases inFile : ∃ file ∈ chunk.files, file.sourceIndex = ref.sourceIndex
  · obtain ⟨file, isFile, source⟩ := inFile
    have fileInChunk : (chunk.root identifiers).inChunk file.sourceIndex = true := by
      rw [source]
      exact inChunk
    refine (own chunk.files_different file isFile fileInChunk ref source.symm).trans ?_
    have started : (NestedRenamer.new (chunk.root identifiers) file.uses file.sourceIndex).names
        ref.innerIndex = (chunk.root identifiers).names ref := by
      unfold NestedRenamer.new
      dsimp only
      rw [if_pos fileInChunk, source]
    rw [← started]
    apply (file.rename_extends identifiers top.ok).names_kept
    rw [started]
    exact (top.named_iff ref inChunk).mpr member
  · exact others ref fun file isFile source => inFile ⟨file, isFile, source⟩

mutual

theorem places_source {symbols : SymbolMap} {sourceIndex : ℕ} {levels : List (List Ref)}
    {named : List Ref} {ref : Ref} (scope : Scope)
    (member : ref ∈ (scope.places symbols sourceIndex levels named).flatMap Place.own) :
    ref.sourceIndex = sourceIndex := by
  cases scope with
  | mk index members generated children =>
      rw [Scope.places, List.flatMap_cons, List.mem_append] at member
      rcases member with own | below
      · exact NestedRenamer.isOwn_source (isOwn_of_declares own)
      · exact placesOfChildren_source children below

theorem placesOfChildren_source {symbols : SymbolMap} {sourceIndex : ℕ}
    {levels : List (List Ref)} {named : List Ref} {ref : Ref} (scopes : List Scope)
    (member : ref ∈ (placesOfChildren symbols sourceIndex levels named scopes).flatMap Place.own) :
    ref.sourceIndex = sourceIndex := by
  cases scopes with
  | nil => exact absurd member List.not_mem_nil
  | cons child rest =>
      rw [placesOfChildren, List.flatMap_append, List.mem_append] at member
      rcases member with first | later
      · exact places_source child first
      · exact placesOfChildren_source rest later

end

theorem rename_nested (identifiers : Identifiers) (chunk : Chunk) {references : ℕ → Ref → Prop}
    {file : FileScopes} (isFile : file ∈ chunk.files)
    (recorded : RecordsUses file.uses references (insideOfChildren file.scopes)) {ref : Ref}
    (member : ref ∈ chunk.topLevelSymbols ++ (placesOfChildren chunk.symbols file.sourceIndex
      [chunk.topLevelSymbols] chunk.topLevelSymbols file.scopes).flatMap Place.own) :
    (chunk.rename identifiers).nameForSymbol ref =
      (file.rename identifiers (chunk.root identifiers)).nameOf ref := by
  obtain ⟨top, sameRoot⟩ := chunk.root_topLevel identifiers
  have symbols : (chunk.root identifiers).symbols = chunk.symbols := sameRoot.symbols_eq
  have inChunk : (chunk.root identifiers).inChunk file.sourceIndex = true := by
    unfold NumberRenamer.inChunk
    rw [sameRoot.files_eq]
    exact chunk.files_in_chunk file isFile
  have later := file.rename_extends identifiers top.ok
  obtain ⟨along, _⟩ := file.rename_visited identifiers top inChunk recorded
  rw [symbols] at along
  unfold NestedRenamer.nameOf
  rw [later.source_eq, later.root_eq]
  split
  · rename_i inFile
    obtain ⟨same, _, own⟩ := absorbs_names identifiers top.ok chunk.files (chunk.root identifiers)
    have names := own chunk.files_different file isFile inChunk ref inFile
    refine (nameForSymbol_named ?_ ?_ ?_).trans names
    · have resolved := along.resolved ref member
      rw [later.root_eq] at resolved
      unfold Chunk.rename
      rw [same.symbols_eq]
      exact resolved
    · unfold Chunk.rename NumberRenamer.inChunk
      rw [same.files_eq, show ref.sourceIndex = file.sourceIndex from inFile]
      exact inChunk
    · unfold Chunk.rename
      rw [names]
      exact (along.named_iff ref (inFile.trans later.source_eq.symm)).mpr member
  · rename_i elsewhere
    rcases List.mem_append.mp member with isTop | nested
    · exact chunk.rename_topLevel identifiers isTop
    · exact absurd (placesOfChildren_source file.scopes nested) elsewhere

/-- The names of a chunk keep every binding.  Symbols of one scope have different names, no
name is reserved, and no symbol between a use and the scope of the used symbol has its
name. -/
theorem rename_keepsBindings (identifiers : Identifiers) (chunk : Chunk)
    (references : ℕ → ℕ → Ref → Prop)
    (recorded : ∀ file ∈ chunk.files,
      RecordsUses file.uses (references file.sourceIndex) (insideOfChildren file.scopes)) :
    (∀ a ∈ chunk.topLevelSymbols, ∀ b ∈ chunk.topLevelSymbols,
      (chunk.rename identifiers).nameForSymbol a = (chunk.rename identifiers).nameForSymbol b →
        a = b) ∧
    (∀ ref ∈ chunk.topLevelSymbols,
      (chunk.rename identifiers).nameForSymbol ref ∉ chunk.reserved) ∧
    ∀ file ∈ chunk.files, ∀ place ∈ placesOfChildren chunk.symbols file.sourceIndex
        [chunk.topLevelSymbols] chunk.topLevelSymbols file.scopes,
      place.KeepsBindings (chunk.rename identifiers).nameForSymbol chunk.reserved
        (references file.sourceIndex) := by
  obtain ⟨top, sameRoot⟩ := chunk.root_topLevel identifiers
  have symbols : (chunk.root identifiers).symbols = chunk.symbols := sameRoot.symbols_eq
  refine ⟨?_, ?_, ?_⟩
  · intro a memberA b memberB
    rw [chunk.rename_topLevel identifiers memberA, chunk.rename_topLevel identifiers memberB]
    exact top.settled.different a memberA b memberB
  · intro ref member
    rw [chunk.rename_topLevel identifiers member]
    exact top.settled.not_reserved ref member
  · intro file isFile place isPlace
    have inChunk : (chunk.root identifiers).inChunk file.sourceIndex = true := by
      unfold NumberRenamer.inChunk
      rw [sameRoot.files_eq]
      exact chunk.files_in_chunk file isFile
    obtain ⟨_, keeps⟩ := file.rename_visited identifiers top inChunk (recorded file isFile)
    rw [symbols] at keeps
    obtain ⟨kept, known⟩ := keeps place isPlace
    apply kept.congr
    intro level isLevel ref member
    exact chunk.rename_nested identifiers isFile (recorded file isFile) (known level isLevel ref member)

/-- A module with a variable `a`, and a function with an `a` and a `b` of its own in which
another function uses the outer `a`. -/
def twoNested : Chunk where
  symbols :=
    { get := fun ref => { originalName := ascii (if ref.innerIndex = 2 then "b" else "a") }
      follow := id
      followPrinted := id
      follow_follow := fun _ => rfl }
  rootNames := [(ascii "let", 1)]
  filesInChunk := [0]
  crossChunkNames := fun _ => none
  crossing := []
  topLevel := [⟨0, 0⟩]
  files := [{
    sourceIndex := 0
    uses := fun symbol _ => symbol.innerIndex = 0
    scopes := [.mk 1 [⟨1, 0⟩] [⟨2, 0⟩] [.mk 2 [] [] []]] }]
  cross_followed := fun _ _ found => absurd found (by simp)
  cross_different := fun _ _ _ found => absurd found (by simp)
  cross_free := fun _ _ found => absurd found (by simp)
  files_in_chunk := by decide
  files_different := by decide

def underscored : Identifiers where
  ensureValidIdentifier := fun name => ascii "_" ++ name
  ensureValidIdentifier_ne_nil := by simp [ascii]

theorem rename_keepsBindings_twoNested :
    (twoNested.rename underscored).nameForSymbol ⟨1, 0⟩ = ascii "a2" ∧
      ∀ file ∈ twoNested.files, ∀ place ∈ placesOfChildren twoNested.symbols file.sourceIndex
          [twoNested.topLevelSymbols] twoNested.topLevelSymbols file.scopes,
        place.KeepsBindings (twoNested.rename underscored).nameForSymbol twoNested.reserved
          fun index symbol => index = 2 ∧ symbol = ⟨0, 0⟩ := by
  refine ⟨by decide +kernel, (rename_keepsBindings underscored twoNested
    (fun _ index symbol => index = 2 ∧ symbol = ⟨0, 0⟩) ?_).2.2⟩
  intro file isFile scope _ inner _ symbol ⟨_, isSymbol⟩
  rw [List.mem_singleton.mp isFile, isSymbol]
  rfl

/-- A module with a variable `arguments`, which one function uses.  Another has a scope with
an `arguments` of its own, in which the `arguments` of the function is used. -/
def argumentsInside : Chunk where
  symbols :=
    { get := fun ref =>
        { originalName := ascii "arguments"
          kind := if ref.innerIndex = 1 ∨ ref.innerIndex = 3 then .arguments else .other
          mustNotBeRenamed := ref.innerIndex = 1 ∨ ref.innerIndex = 3 }
      follow := id
      followPrinted := id
      follow_follow := fun _ => rfl }
  rootNames := [(ascii "let", 1)]
  filesInChunk := [0]
  crossChunkNames := fun _ => none
  crossing := []
  topLevel := [⟨0, 0⟩]
  files := [{
    sourceIndex := 0
    uses := fun symbol index =>
      symbol.innerIndex = 1 ∧ index ≤ 2 ∨ symbol.innerIndex = 0 ∧ index = 3
    scopes := [.mk 1 [⟨1, 0⟩] [] [.mk 2 [⟨2, 0⟩] [] []], .mk 3 [⟨3, 0⟩] [] []] }]
  cross_followed := fun _ _ found => absurd found (by simp)
  cross_different := fun _ _ _ found => absurd found (by simp)
  cross_free := fun _ _ found => absurd found (by simp)
  files_in_chunk := by decide
  files_different := by decide

/-- The `arguments` of a function keeps its name, which no scope is kept from.  It is captured
in one function, and captures in the other. -/
theorem rename_capturesArguments :
    let references (index : ℕ) (symbol : Ref) :=
      index = 2 ∧ symbol = ⟨1, 0⟩ ∨ index = 3 ∧ symbol = ⟨0, 0⟩
    let nameOf := (argumentsInside.rename underscored).nameForSymbol
    (∀ file ∈ argumentsInside.files,
      RecordsUses file.uses references (insideOfChildren file.scopes)) ∧
    nameOf ⟨2, 0⟩ = nameOf ⟨1, 0⟩ ∧ nameOf ⟨3, 0⟩ = nameOf ⟨0, 0⟩ ∧
    nameOf ⟨1, 0⟩ ∉ argumentsInside.reserved := by
  intro references nameOf
  refine ⟨?_, by decide +kernel, by decide +kernel, by decide +kernel⟩
  intro file isFile scope isScope inner isInside symbol used
  rw [List.mem_singleton.mp isFile] at isScope ⊢
  have inTree : scope = .mk 1 [⟨1, 0⟩] [] [.mk 2 [⟨2, 0⟩] [] []] ∨ scope = .mk 2 [⟨2, 0⟩] [] [] ∨
      scope = .mk 3 [⟨3, 0⟩] [] [] := by
    simpa [Scope.inside, insideOfChildren] using isScope
  rcases inTree with rfl | rfl | rfl <;>
    simp only [Scope.inside, insideOfChildren, List.append_nil, List.mem_cons,
      List.not_mem_nil, or_false] at isInside
  · rcases isInside with rfl | rfl <;> rcases used with ⟨isIndex, rfl⟩ | ⟨isIndex, rfl⟩ <;>
      simp [Scope.index] at isIndex ⊢
  · rcases used with ⟨isIndex, rfl⟩ | ⟨isIndex, rfl⟩ <;> simp [isInside, Scope.index] at isIndex ⊢
  · rcases used with ⟨isIndex, rfl⟩ | ⟨isIndex, rfl⟩ <;> simp [isInside, Scope.index] at isIndex ⊢

end Chunk

end Bun.Renamer
