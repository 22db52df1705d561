/-
Whether a symbol is used in a scope or inside it.

The parser records for each symbol of a file the scopes that refer to it, and spans of scopes
that may.  `ScopeUseIndex.build` puts the recorded scopes of every symbol into a sorted bucket
of its own, and collects the symbols of the file that print as other ones.  `ScopeUses.sees`
asks that index for a span of scopes.
-/

import Bun.Collections.AutoBitSet
import Bun.Foundation.Bisection
import Bun.Foundation.CountingSort
import Bun.Renamer.Bindings
import Bun.Renamer.LinkedSymbols

set_option autoImplicit false

namespace Bun.Renamer

open Bun.Foundation
open Bun.Collections (AutoBitSet)

def maxU32 : ℕ := 4294967295

/-! ### Scopes -/

inductive ScopeKind where
  | block
  | with_
  | label
  | className
  | classBody
  | catchBinding
  | entry
  | functionArgs
  | functionBody
  | classStaticInit
deriving DecidableEq, Repr

/-- `visitSpan` is the index of a scope in the pre-order walk and the last index inside it. -/
inductive AstScope where
  | mk (kind : ScopeKind) (visitSpan : ℕ × ℕ) (parent : Option AstScope)

namespace AstScope

def kind : AstScope → ScopeKind
  | mk kind _ _ => kind

def visitSpan : AstScope → Option (ℕ × ℕ)
  | mk _ span _ => if span.1 ≠ maxU32 ∧ span.1 ≤ span.2 then some span else none

def withParameters : AstScope → AstScope
  | mk .functionBody _ (some parent) => parent
  | mk .block span (some parent) =>
      if parent.kind = .catchBinding then parent else mk .block span (some parent)
  | scope => scope

end AstScope

/-! ### What is recorded -/

/-- The symbol with this inner index is referenced directly in the scope. -/
structure ScopeUse where
  scope : ℕ
  symbol : ℕ
deriving DecidableEq, Repr

structure ScopeUseSpan where
  symbol : ℕ
  first : ℕ
  last : ℕ
deriving DecidableEq, Repr

/-- Points come in visit order, spans sorted by their symbols. -/
structure ScopeUseList where
  tracked : Bool := false
  points : List ScopeUse := []
  spans : List ScopeUseSpan := []
  spans_sorted : spans.Pairwise fun a b => a.symbol ≤ b.symbol

/-- A count, and in the topmost bit whether the scope of some use is not recorded. -/
abbrev Use : Type := UInt32

def Use.hasUnscoped (use : Use) : Bool :=
  use &&& 2147483648 != 0

structure Part where
  symbolUses : List (Ref × Use)

structure ScopeUses where
  sourceIndex : ℕ
  list : ScopeUseList
  parts : List Part
  partsLive : AutoBitSet parts.length
  symbols : PrintedLinks
  /-- Only symbols of the file are recorded. -/
  points_known : ∀ point ∈ list.points,
    point.symbol < (symbols.symbolsForSource.getD sourceIndex []).length

structure ScopeUseIndex where
  offsets : List ℕ
  scopeIndices : List ℕ
  everywhere : List Ref
  aliases : List (ℕ × ℕ)

namespace ScopeUses

def fileSymbols (file : ScopeUses) : List LinkedSymbol :=
  file.symbols.symbolsForSource.getD file.sourceIndex []

def ownRef (file : ScopeUses) (inner : ℕ) : Ref where
  innerIndex := inner
  sourceIndex := file.sourceIndex

end ScopeUses

/-! ### The index -/

def aliasLe (a b : ℕ × ℕ) : Bool :=
  a.1 < b.1 || (a.1 = b.1 && a.2 ≤ b.2)

namespace ScopeUseIndex

def everywhereOf (file : ScopeUses) : List Ref :=
  (file.parts.zipIdx.filter fun entry => file.partsLive.isSet entry.2).flatMap fun entry =>
    (entry.1.symbolUses.filter fun use => Use.hasUnscoped use.2).map fun use =>
      file.symbols.followPrinted use.1

def aliasOf (file : ScopeUses) (entry : LinkedSymbol × ℕ) : Option (ℕ × ℕ) :=
  if entry.1.link.isNone && entry.1.namespaceAlias.isNone then none
  else if file.symbols.followPrinted (file.ownRef entry.2) ≠ file.ownRef entry.2 then
    some ((file.symbols.followPrinted (file.ownRef entry.2)).toRawBits, entry.2)
  else none

def aliasesOf (file : ScopeUses) : List (ℕ × ℕ) :=
  (file.fileSymbols.zipIdx.filterMap (aliasOf file)).mergeSort aliasLe

def keyed (file : ScopeUses) : List (ℕ × ℕ) :=
  file.list.points.map fun point => (point.symbol, point.scope)

def build (file : ScopeUses) : ScopeUseIndex :=
  let buckets := CountingSort.intoBuckets file.fileSymbols.length 0 (keyed file)
  { offsets := buckets.1
    scopeIndices := CountingSort.sortBuckets (List.mergeSort · (· ≤ ·)) buckets.1
      file.fileSymbols.length buckets.2
    everywhere := everywhereOf file
    aliases := aliasesOf file }

end ScopeUseIndex

namespace ScopeUses

def seesOwn (file : ScopeUses) (index : ScopeUseIndex) (symbol : ℕ) (span : ℕ × ℕ) : Bool :=
  let lo := index.offsets.getD symbol 0
  let hi := index.offsets.getD (symbol + 1) 0
  let scopes := CountingSort.segment index.scopeIndices lo (hi - lo)
  let i := partitionPoint scopes fun at_ => decide (at_ < span.1)
  if (scopes[i]?).any fun at_ => decide (at_ ≤ span.2) then true
  else
    let i := partitionPoint file.list.spans fun s => decide (s.symbol < symbol)
    ((file.list.spans.drop i).takeWhile fun s => decide (s.symbol = symbol)).any
      fun s => decide (s.first ≤ span.2) && decide (span.1 ≤ s.last)

def seesIn (file : ScopeUses) (index : ScopeUseIndex) (symbol : Ref) (span : ℕ × ℕ) : Bool :=
  if index.everywhere.contains symbol then true
  else if symbol.sourceIndex = file.sourceIndex ∧
      file.seesOwn index symbol.innerIndex span = true then true
  else
    let key := symbol.toRawBits
    let i := partitionPoint index.aliases fun entry => decide (entry.1 < key)
    ((index.aliases.drop i).takeWhile fun entry => decide (entry.1 = key)).any
      fun entry => file.seesOwn index entry.2 span

/-- Whether a binding in the scope would capture a reference to the symbol. -/
def sees (file : ScopeUses) (symbol : Ref) (scope : AstScope) : Bool :=
  match scope.withParameters.visitSpan with
  | none => true
  | some span =>
      if !file.list.tracked then true
      else file.seesIn (ScopeUseIndex.build file) symbol span

end ScopeUses

/-! ### What the index stands for -/

/-- Two spans of scopes have a scope in common, when neither is empty. -/
def ScopeUseSpan.Meets (s : ScopeUseSpan) (first last : ℕ) : Prop :=
  s.first ≤ last ∧ first ≤ s.last

namespace ScopeUses

def Recorded (file : ScopeUses) (own first last : ℕ) : Prop :=
  (∃ point ∈ file.list.points, point.symbol = own ∧ first ≤ point.scope ∧ point.scope ≤ last) ∨
    ∃ s ∈ file.list.spans, s.symbol = own ∧ s.Meets first last

def PrintsAs (file : ScopeUses) (own : ℕ) (symbol : Ref) : Prop :=
  own < file.fileSymbols.length ∧
    (file.ownRef own = symbol ∨ file.symbols.followPrinted (file.ownRef own) = symbol)

def UsedAnywhere (file : ScopeUses) (symbol : Ref) : Prop :=
  ∃ partIndex part, file.parts[partIndex]? = some part ∧ file.partsLive.isSet partIndex = true ∧
    ∃ use ∈ part.symbolUses, Use.hasUnscoped use.2 = true ∧
      file.symbols.followPrinted use.1 = symbol

/-! ### The buckets of the index -/

theorem keyed_inside (file : ScopeUses) :
    ∀ point ∈ ScopeUseIndex.keyed file, point.1 < file.fileSymbols.length := by
  intro point member
  obtain ⟨recorded, isRecorded, rfl⟩ := List.mem_map.mp member
  exact file.points_known recorded isRecorded

theorem mem_bucket_keyed (file : ScopeUses) (own at_ : ℕ) :
    at_ ∈ CountingSort.bucket (ScopeUseIndex.keyed file) own ↔
      ∃ point ∈ file.list.points, point.symbol = own ∧ point.scope = at_ := by
  rw [CountingSort.mem_bucket]
  unfold ScopeUseIndex.keyed
  rw [List.mem_map]
  constructor
  · rintro ⟨point, member, same⟩
    rw [Prod.mk.injEq] at same
    exact ⟨point, member, same.1, same.2⟩
  · rintro ⟨point, member, rfl, rfl⟩
    exact ⟨point, member, rfl⟩

theorem scopes_of (file : ScopeUses) {own : ℕ} (inside : own < file.fileSymbols.length) :
    CountingSort.segment (ScopeUseIndex.build file).scopeIndices
        ((ScopeUseIndex.build file).offsets.getD own 0)
        ((ScopeUseIndex.build file).offsets.getD (own + 1) 0
          - (ScopeUseIndex.build file).offsets.getD own 0)
      = (CountingSort.bucket (ScopeUseIndex.keyed file) own).mergeSort (· ≤ ·) := by
  have filled := CountingSort.intoBuckets_filled 0 file.keyed_inside
  have keeps (values : List ℕ) : (List.mergeSort values (· ≤ ·)).length = values.length :=
    List.length_mergeSort values
  have sorted := (CountingSort.sortBuckets_segment keeps filled file.fileSymbols.length
    (Nat.le_refl _)).2 own (Nat.le_of_lt inside)
  rw [if_pos inside] at sorted
  have start : (ScopeUseIndex.build file).offsets.getD own 0
      = CountingSort.startOf (ScopeUseIndex.keyed file) own :=
    filled.next own (Nat.le_of_lt inside)
  have stop : (ScopeUseIndex.build file).offsets.getD (own + 1) 0
      = CountingSort.startOf (ScopeUseIndex.keyed file) (own + 1) :=
    filled.next (own + 1) inside
  rw [start, stop, CountingSort.startOf_succ, Nat.add_sub_cancel_left]
  exact sorted

theorem mergeSort_sorted (values : List ℕ) :
    (values.mergeSort (· ≤ ·)).Pairwise fun a b => id a ≤ id b := by
  have trans (a b c : ℕ) (ab : decide (a ≤ b) = true) (bc : decide (b ≤ c) = true) :
      decide (a ≤ c) = true := by
    rw [decide_eq_true_eq] at ab bc ⊢
    exact Nat.le_trans ab bc
  have total (a b : ℕ) : (decide (a ≤ b) || decide (b ≤ a)) = true := by
    rw [Bool.or_eq_true, decide_eq_true_eq, decide_eq_true_eq]
    exact Nat.le_total a b
  exact (List.pairwise_mergeSort trans total values).imp fun le => of_decide_eq_true le

theorem seesOwn_iff (file : ScopeUses) {own : ℕ} (inside : own < file.fileSymbols.length)
    (first last : ℕ) :
    file.seesOwn (ScopeUseIndex.build file) own (first, last) = true ↔
      file.Recorded own first last := by
  have points := any_at_partitionPoint
    (mergeSort_sorted (CountingSort.bucket (ScopeUseIndex.keyed file) own)) first last
  have spans := mem_run file.list.spans_sorted own
  unfold seesOwn Recorded
  dsimp only
  rw [scopes_of file inside]
  have atPoint : ((∃ at_ ∈ (CountingSort.bucket (ScopeUseIndex.keyed file) own).mergeSort (· ≤ ·),
      first ≤ at_ ∧ at_ ≤ last) ↔ ∃ point ∈ file.list.points, point.symbol = own ∧
        first ≤ point.scope ∧ point.scope ≤ last) := by
    constructor
    · rintro ⟨at_, member, within⟩
      obtain ⟨point, recorded, isOwn, rfl⟩ :=
        (file.mem_bucket_keyed own at_).mp (List.mem_mergeSort.mp member)
      exact ⟨point, recorded, isOwn, within⟩
    · rintro ⟨point, recorded, isOwn, within⟩
      refine ⟨point.scope, List.mem_mergeSort.mpr ?_, within⟩
      exact (file.mem_bucket_keyed own point.scope).mpr ⟨point, recorded, isOwn, rfl⟩
  rw [← atPoint]
  split
  · rename_i found
    exact ⟨fun _ => Or.inl (points.mp found), fun _ => rfl⟩
  · rename_i missing
    rw [List.any_eq_true]
    constructor
    · rintro ⟨s, member, meets⟩
      rw [Bool.and_eq_true, decide_eq_true_eq, decide_eq_true_eq] at meets
      have isOwn := (spans s).mp member
      exact Or.inr ⟨s, isOwn.1, isOwn.2, meets⟩
    · rintro (found | ⟨s, recorded, isOwn, meets⟩)
      · exact absurd (points.mpr found) missing
      · refine ⟨s, (spans s).mpr ⟨recorded, isOwn⟩, ?_⟩
        rw [Bool.and_eq_true, decide_eq_true_eq, decide_eq_true_eq]
        exact meets

/-! ### Aliases and uses without a scope -/

theorem mem_everywhere (file : ScopeUses) (symbol : Ref) :
    (ScopeUseIndex.build file).everywhere.contains symbol = true ↔ file.UsedAnywhere symbol := by
  rw [List.contains_iff_mem]
  change symbol ∈ ScopeUseIndex.everywhereOf file ↔ _
  unfold ScopeUseIndex.everywhereOf UsedAnywhere
  rw [List.mem_flatMap]
  constructor
  · rintro ⟨entry, isLive, member⟩
    rw [List.mem_filter] at isLive
    obtain ⟨use, unscoped, printed⟩ := List.mem_map.mp member
    rw [List.mem_filter] at unscoped
    exact ⟨entry.2, entry.1, List.mem_zipIdx_iff_getElem?.mp isLive.1, isLive.2, use,
      unscoped.1, unscoped.2, printed⟩
  · rintro ⟨partIndex, part, found, isLive, use, member, unscoped, printed⟩
    refine ⟨(part, partIndex), List.mem_filter.mpr ⟨?_, isLive⟩, List.mem_map.mpr ⟨use, ?_, printed⟩⟩
    · exact List.mem_zipIdx_iff_getElem?.mpr found
    · exact List.mem_filter.mpr ⟨member, unscoped⟩

theorem aliases_sorted (file : ScopeUses) :
    (ScopeUseIndex.aliasesOf file).Pairwise fun a b => a.1 ≤ b.1 := by
  have trans (a b c : ℕ × ℕ) (ab : aliasLe a b = true) (bc : aliasLe b c = true) :
      aliasLe a c = true := by
    unfold aliasLe at *
    simp only [Bool.or_eq_true, Bool.and_eq_true, decide_eq_true_eq] at *
    omega
  have total (a b : ℕ × ℕ) : (aliasLe a b || aliasLe b a) = true := by
    unfold aliasLe
    simp only [Bool.or_eq_true, Bool.and_eq_true, decide_eq_true_eq]
    omega
  apply (List.pairwise_mergeSort trans total _).imp
  intro a b ordered
  unfold aliasLe at ordered
  simp only [Bool.or_eq_true, Bool.and_eq_true, decide_eq_true_eq] at ordered
  omega

theorem getConst_ownRef (file : ScopeUses) (own : ℕ) :
    getConst file.symbols.symbolsForSource (file.ownRef own) = file.fileSymbols[own]? :=
  rfl

theorem known_ownRef (file : ScopeUses) {own : ℕ} (inside : own < file.fileSymbols.length) :
    file.symbols.Known (file.ownRef own) := by
  unfold Links.Known
  rw [getConst_ownRef, List.getElem?_eq_getElem inside]
  rfl

theorem mem_aliases (file : ScopeUses) (key own : ℕ) :
    (key, own) ∈ ScopeUseIndex.aliasesOf file ↔
      own < file.fileSymbols.length ∧
        file.symbols.followPrinted (file.ownRef own) ≠ file.ownRef own ∧
        key = (file.symbols.followPrinted (file.ownRef own)).toRawBits := by
  unfold ScopeUseIndex.aliasesOf
  rw [List.mem_mergeSort, List.mem_filterMap]
  constructor
  · rintro ⟨entry, member, isAlias⟩
    have found := List.mem_zipIdx_iff_getElem?.mp member
    unfold ScopeUseIndex.aliasOf at isAlias
    split at isAlias
    · cases isAlias
    · split at isAlias
      · rename_i different
        cases isAlias
        exact ⟨(List.getElem?_eq_some_iff.mp found).1, different, rfl⟩
      · cases isAlias
  · rintro ⟨inside, different, rfl⟩
    have found := List.getElem?_eq_getElem inside
    refine ⟨(file.fileSymbols[own], own), List.mem_zipIdx_iff_getElem?.mpr found, ?_⟩
    unfold ScopeUseIndex.aliasOf
    rw [if_neg, if_pos different]
    intro plain
    rw [Bool.and_eq_true, Option.isNone_iff_eq_none, Option.isNone_iff_eq_none] at plain
    apply different
    apply file.symbols.followPrinted_of_plain
    · unfold linkOf
      rw [getConst_ownRef, found]
      exact plain.1
    · unfold namespaceOf
      rw [getConst_ownRef, found]
      exact plain.2

/-! ### The answer -/

theorem seesIn_iff (file : ScopeUses) (symbol : Ref) (known : file.symbols.Known symbol)
    (first last : ℕ) :
    file.seesIn (ScopeUseIndex.build file) symbol (first, last) = true ↔
      file.UsedAnywhere symbol ∨
        ∃ own, file.PrintsAs own symbol ∧ file.Recorded own first last := by
  have run := mem_run file.aliases_sorted symbol.toRawBits
  unfold seesIn
  split
  · rename_i anywhere
    exact ⟨fun _ => Or.inl ((file.mem_everywhere symbol).mp anywhere), fun _ => rfl⟩
  · rename_i nowhere
    rw [file.mem_everywhere symbol] at nowhere
    split
    · rename_i itself
      have isOwn : file.ownRef symbol.innerIndex = symbol := by
        cases symbol
        exact congrArg _ itself.1.symm
      have inside : symbol.innerIndex < file.fileSymbols.length := by
        have present := known
        unfold Links.Known at present
        rw [← isOwn, getConst_ownRef] at present
        obtain ⟨entry, found⟩ := Option.isSome_iff_exists.mp present
        exact (List.getElem?_eq_some_iff.mp found).1
      have recorded := (file.seesOwn_iff inside first last).mp itself.2
      exact ⟨fun _ => Or.inr ⟨_, ⟨inside, Or.inl isOwn⟩, recorded⟩, fun _ => rfl⟩
    · rename_i notItself
      dsimp only
      rw [List.any_eq_true]
      constructor
      · rintro ⟨entry, member, seen⟩
        have isRun := (run entry).mp member
        have isAlias := (file.mem_aliases entry.1 entry.2).mp isRun.1
        refine Or.inr ⟨entry.2, ⟨isAlias.1, Or.inr ?_⟩,
          (file.seesOwn_iff isAlias.1 first last).mp seen⟩
        apply Ref.toRawBits_injective
        · exact file.symbols.fits _ (file.symbols.followPrinted_known (file.known_ownRef isAlias.1))
        · exact file.symbols.fits _ known
        · exact isAlias.2.2.symm.trans isRun.2
      · rintro (anywhere | ⟨own, ⟨inside, prints⟩, recorded⟩)
        · exact absurd anywhere nowhere
        · have seen := (file.seesOwn_iff inside first last).mpr recorded
          have notOwn : file.ownRef own ≠ symbol := by
            rintro rfl
            exact notItself ⟨rfl, seen⟩
          have printed := prints.resolve_left notOwn
          refine ⟨(symbol.toRawBits, own), (run _).mpr ⟨?_, rfl⟩, seen⟩
          apply (file.mem_aliases _ _).mpr
          refine ⟨inside, ?_, by rw [printed]⟩
          rw [printed]
          exact Ne.symm notOwn

/-- A scope sees a symbol when it may be printed anywhere, or when a symbol of the file that
prints as it is recorded in the span of the scope. -/
theorem sees_iff (file : ScopeUses) (symbol : Ref) (scope : AstScope) (first last : ℕ)
    (tracked : file.list.tracked = true)
    (span : scope.withParameters.visitSpan = some (first, last))
    (known : file.symbols.Known symbol) :
    file.sees symbol scope = true ↔
      file.UsedAnywhere symbol ∨
        ∃ own, file.PrintsAs own symbol ∧ file.Recorded own first last := by
  unfold sees
  rw [span]
  dsimp only
  rw [tracked, Bool.not_true, if_neg Bool.false_ne_true]
  exact file.seesIn_iff symbol known first last

/-- Two symbols of one file, the second linked to the first. -/
def linkedPair : NestedList :=
  [[{}, { link := some { innerIndex := 0, sourceIndex := 0 } }]]

theorem linkOf_linkedPair (ref next : Ref) (linked : linkOf linkedPair ref = some next) :
    ref.innerIndex = 1 ∧ next = { innerIndex := 0, sourceIndex := 0 } := by
  cases ref with
  | mk inner source =>
      rcases source with _ | source
      · rcases inner with _ | _ | inner
        · cases linked
        · cases linked
          exact ⟨rfl, rfl⟩
        · cases linked
      · cases linked

theorem namespaceOf_linkedPair (ref : Ref) : namespaceOf linkedPair ref = none := by
  cases ref with
  | mk inner source =>
      rcases source with _ | source
      · rcases inner with _ | _ | inner <;> rfl
      · rfl

theorem innerIndex_of_linkedPair (ref : Ref) (known : (getConst linkedPair ref).isSome = true) :
    ref.innerIndex < 2 ^ 28 := by
  cases ref with
  | mk inner source =>
      rcases source with _ | source
      · rcases inner with _ | _ | inner
        · exact Nat.two_pow_pos 28
        · exact Nat.one_lt_two_pow (by decide)
        · cases known
      · cases known

def linkedPairLinks : PrintedLinks where
  symbolsForSource := linkedPair
  height := Ref.innerIndex
  height_lt := by
    intro ref next linked
    obtain ⟨one, rfl⟩ := linkOf_linkedPair ref next linked
    rw [one]
    exact Nat.zero_lt_one
  link_known := by
    intro ref next linked
    obtain ⟨_, rfl⟩ := linkOf_linkedPair ref next linked
    rfl
  namespace_known := by
    intro ref object aliased
    rw [namespaceOf_linkedPair ref] at aliased
    cases aliased
  fits := innerIndex_of_linkedPair
  depth := fun _ => 0
  depth_lt := by
    intro ref object aliased
    rw [namespaceOf_linkedPair ref] at aliased
    cases aliased

/-- The second symbol is referenced in the scope 2, the first one in the scope 5. -/
def linkedPairUses : ScopeUses where
  sourceIndex := 0
  list :=
    { tracked := true
      points := [{ scope := 5, symbol := 0 }, { scope := 2, symbol := 1 }]
      spans_sorted := List.Pairwise.nil }
  parts := []
  partsLive := AutoBitSet.initEmpty 0
  symbols := linkedPairLinks
  points_known := by decide

/-- A function whose parameters start at scope 2 sees the first symbol, which the second one
prints as; from scope 3 on it is not seen before scope 5. -/
theorem sees_linkedPair :
    linkedPairUses.sees { innerIndex := 0, sourceIndex := 0 }
        (.mk .functionBody (3, 4) (some (.mk .functionArgs (2, 4) none))) = true ∧
      linkedPairUses.sees { innerIndex := 0, sourceIndex := 0 } (.mk .block (3, 4) none)
        = false := by
  have known : linkedPairUses.symbols.Known { innerIndex := 0, sourceIndex := 0 } := rfl
  constructor
  · apply (sees_iff linkedPairUses _ _ 2 4 rfl rfl known).mpr
    refine Or.inr ⟨1, ⟨by decide, Or.inr rfl⟩, Or.inl ⟨{ scope := 2, symbol := 1 }, ?_⟩⟩
    exact ⟨List.mem_cons_of_mem _ List.mem_cons_self, rfl, by decide, by decide⟩
  · rw [Bool.eq_false_iff]
    intro seen
    have why := (sees_iff linkedPairUses _ _ 3 4 rfl rfl known).mp seen
    rcases why with ⟨partIndex, part, found, _⟩ | ⟨own, _, ⟨point, member, _, above, below⟩ | found⟩
    · cases found
    · rcases List.mem_cons.mp member with rfl | member
      · exact absurd below (by decide)
      · rcases List.mem_cons.mp member with rfl | member
        · exact absurd above (by decide)
        · cases member
    · obtain ⟨s, member, _⟩ := found
      cases member

/-! ### Uses of the nested scopes -/

/-- The symbol is referenced in the scope itself: a symbol of the file that prints as it is
recorded at the scope, or uses of it are not recorded. -/
def references (file : ScopeUses) (scopeAt : ℕ → AstScope) (index : ℕ) (symbol : Ref) : Prop :=
  ∃ at_ last, (scopeAt index).visitSpan = some (at_, last) ∧
    (file.UsedAnywhere symbol ∨ ∃ own, file.PrintsAs own symbol ∧ file.Recorded own at_ at_)

theorem PrintsAs.known {file : ScopeUses} {own : ℕ} {symbol : Ref}
    (prints : file.PrintsAs own symbol) : file.symbols.Known symbol := by
  have isKnown := file.known_ownRef prints.1
  rcases prints.2 with itself | printed
  · exact itself ▸ isKnown
  · exact printed ▸ file.symbols.followPrinted_known isKnown

end ScopeUses

end Bun.Renamer
