/-
What the names that minification hands out are good for.

The numbers of the names go up from slot to slot, so the slots of a namespace differ.
A slot that needs a capital leaves the loop over the reserved names behind before it
looks for one, so that the name it ends with may be a reserved one.
-/

import Mathlib.Data.List.Lookmap
import Bun.Renamer.MinifyRenamer

set_option autoImplicit false

namespace Bun.Renamer

open Bun.Foundation

namespace MinifyRenamer

variable {minifier : NameMinifier} {reservedNames : List (List UInt8)} {ns : SlotNamespace}

/-! ### One slot -/

def isFree (minifier : NameMinifier) (reservedNames : List (List UInt8)) (i : ℕ) : Bool :=
  !reservedNames.contains (minifier.numberToMinifiedName i)

def isCapital (minifier : NameMinifier) (i : ℕ) : Bool :=
  !NameMinifier.startsLowercase (minifier.numberToMinifiedName i)

def isNoKeyword (minifier : NameMinifier) (i : ℕ) : Bool :=
  !keywords.contains (minifier.numberToMinifiedName i)

/-- What the loops of `chooseNumber` come to. -/
def Chooses (minifier : NameMinifier) (reservedNames : List (List UInt8)) (ns : SlotNamespace)
    (capital : Bool) (next n : ℕ) : Prop :=
  match ns with
  | .default => ∃ k, IsFirst (isFree minifier reservedNames) next k ∧
      if capital then IsFirst (isCapital minifier) k n else n = k
  | .label => IsFirst (isNoKeyword minifier) next n
  | _ => n = next

theorem Chooses.next_le {capital : Bool} {next n : ℕ}
    (chooses : Chooses minifier reservedNames ns capital next n) : next ≤ n := by
  unfold Chooses at chooses
  split at chooses
  · obtain ⟨k, first, second⟩ := chooses
    split at second
    · exact first.from_start.trans second.from_start
    · rw [second]
      exact first.from_start
  · exact chooses.from_start
  · rw [chooses]

theorem exists_chooses (wellFormed : minifier.WellFormed) (capital : Bool) (next : ℕ) :
    ∃ n, Chooses minifier reservedNames ns capital next n := by
  have unused := fun used start => exists_unused
    (NameMinifier.numberToMinifiedName_injective wellFormed) used start
  cases ns with
  | default =>
      obtain ⟨m, atLeast, free⟩ := unused reservedNames next
      obtain ⟨k, first⟩ : ∃ k, IsFirst (isFree minifier reservedNames) next k :=
        exists_isFirst ⟨m, atLeast, by simpa [isFree] using free⟩
      cases capital with
      | false => exact ⟨k, k, first, rfl⟩
      | true =>
          obtain ⟨m, atLeast, notLower⟩ := NameMinifier.exists_not_lowercase wellFormed k
          obtain ⟨n, second⟩ : ∃ n, IsFirst (isCapital minifier) k n :=
            exists_isFirst ⟨m, atLeast, by simpa [isCapital] using notLower⟩
          exact ⟨n, k, first, second⟩
  | label =>
      obtain ⟨m, atLeast, free⟩ := unused keywords next
      obtain ⟨n, first⟩ : ∃ n, IsFirst (isNoKeyword minifier) next n :=
        exists_isFirst ⟨m, atLeast, by simpa [isNoKeyword] using free⟩
      exact ⟨n, first⟩
  | mustNotBeRenamed | privateName | mangledProp => exact ⟨next, rfl⟩

/-- No loop runs longer than from `next` to the number it ends with. -/
theorem chooseNumber_of_chooses {fuel : ℕ} {capital : Bool} {next n : ℕ}
    (chooses : Chooses minifier reservedNames ns capital next n) (enough : n < fuel) :
    chooseNumber fuel minifier reservedNames ns capital next = some n := by
  cases ns with
  | default =>
      obtain ⟨k, first, second⟩ := chooses
      change (firstFrom (isFree minifier reservedNames) fuel next).bind _ = some n
      cases capital with
      | false =>
          obtain rfl : n = k := second
          rw [firstFrom_of_isFirst first (lt_of_le_of_lt (Nat.sub_le n next) enough)]
          rfl
      | true =>
          have second : IsFirst (isCapital minifier) k n := second
          rw [firstFrom_of_isFirst first
            (lt_of_le_of_lt ((Nat.sub_le k next).trans second.from_start) enough)]
          exact firstFrom_of_isFirst second (lt_of_le_of_lt (Nat.sub_le n k) enough)
  | label => exact firstFrom_of_isFirst chooses (lt_of_le_of_lt (Nat.sub_le n next) enough)
  | mustNotBeRenamed | privateName | mangledProp =>
      obtain rfl : n = next := chooses
      rfl

/-! ### All slots of a namespace -/

/-- The numbers that slots with these needs take one after the other. -/
def Numbers (minifier : NameMinifier) (reservedNames : List (List UInt8)) (ns : SlotNamespace) :
    List Bool → ℕ → List ℕ → Prop
  | [], _, numbers => numbers = []
  | capital :: rest, next, numbers => ∃ n later, numbers = n :: later ∧
      Chooses minifier reservedNames ns capital next n ∧
      Numbers minifier reservedNames ns rest (n + 1) later

theorem exists_numbers (wellFormed : minifier.WellFormed) (capitals : List Bool) (next : ℕ) :
    ∃ numbers, Numbers minifier reservedNames ns capitals next numbers := by
  induction capitals generalizing next with
  | nil => exact ⟨[], rfl⟩
  | cons capital rest ih =>
      obtain ⟨n, chooses⟩ := exists_chooses wellFormed capital next
      obtain ⟨later, numbers⟩ := ih (n + 1)
      exact ⟨n :: later, n, later, rfl, chooses, numbers⟩

theorem Numbers.length {capitals : List Bool} {next : ℕ} {numbers : List ℕ}
    (run : Numbers minifier reservedNames ns capitals next numbers) :
    numbers.length = capitals.length := by
  induction capitals generalizing next numbers with
  | nil =>
      rw [show numbers = [] from run]
      rfl
  | cons capital rest ih =>
      obtain ⟨n, later, rfl, _, tail⟩ := run
      rw [List.length_cons, List.length_cons, ih tail]

theorem Numbers.ascending {capitals : List Bool} {next : ℕ} {numbers : List ℕ}
    (run : Numbers minifier reservedNames ns capitals next numbers) :
    (∀ n ∈ numbers, next ≤ n) ∧ numbers.Pairwise (· < ·) := by
  induction capitals generalizing next numbers with
  | nil =>
      rw [show numbers = [] from run]
      exact ⟨fun n member => absurd member List.not_mem_nil, List.Pairwise.nil⟩
  | cons capital rest ih =>
      obtain ⟨n, later, rfl, chooses, tail⟩ := run
      obtain ⟨above, ordered⟩ := ih tail
      refine ⟨fun m member => ?_, List.pairwise_cons.mpr ⟨fun m member => above m member, ordered⟩⟩
      rcases List.mem_cons.mp member with rfl | inLater
      · exact chooses.next_le
      · exact chooses.next_le.trans (Nat.le_of_succ_le (above m inLater))

def nameAll (minifier : NameMinifier) (ns : SlotNamespace) (pairs : List (ℕ × ℕ))
    (slots : List SymbolSlot) : List SymbolSlot :=
  pairs.foldl (fun slots (i, n) => setName slots i (minifiedName minifier ns n)) slots

theorem needsCapital_setName (slots : List SymbolSlot) (i j : ℕ) (name : List UInt8) :
    needsCapital (setName slots i name) j = needsCapital slots j := by
  unfold needsCapital setName
  rw [List.getElem?_modify]
  cases slots[j]? with
  | none => rfl
  | some slot =>
      by_cases same : i = j
      · simp [same]
      · simp [same]

/-- The slots get the numbers that `Numbers` says, once the loops have enough rounds. -/
theorem nameSlots_of_numbers {fuel : ℕ} {sorted : List SlotAndCount} {next : ℕ}
    {numbers : List ℕ} {slots : List SymbolSlot}
    (run : Numbers minifier reservedNames ns (sorted.map (needsCapital slots ·.slot)) next numbers)
    (enough : ∀ n ∈ numbers, n < fuel) :
    nameSlots fuel minifier reservedNames ns sorted next slots =
      some (nameAll minifier ns ((sorted.map (·.slot)).zip numbers) slots) := by
  induction sorted generalizing next numbers slots with
  | nil => rfl
  | cons data rest ih =>
      obtain ⟨n, later, rfl, chooses, tail⟩ := run
      rw [nameSlots, chooseNumber_of_chooses chooses (enough n List.mem_cons_self)]
      refine (ih ?_ fun m member => enough m (List.mem_cons_of_mem n member)).trans rfl
      refine Eq.mp (congrArg (Numbers minifier reservedNames ns · (n + 1) later) ?_) tail
      exact (List.map_congr_left fun other _ => needsCapital_setName slots _ _ _).symm

theorem lookup_eq_none_of_notMem {pairs : List (ℕ × ℕ)} {i : ℕ}
    (absent : i ∉ pairs.map Prod.fst) : pairs.lookup i = none := by
  rw [List.lookup_eq_none_iff]
  intro pair member
  rw [bne_iff_ne]
  intro same
  exact absent (List.mem_map.mpr ⟨pair, member, same.symm⟩)

theorem nameAll_getElem? (pairs : List (ℕ × ℕ)) (nodup : (pairs.map Prod.fst).Nodup)
    (slots : List SymbolSlot) (i : ℕ) :
    (nameAll minifier ns pairs slots)[i]? =
      match pairs.lookup i with
      | some n => slots[i]?.map ({ · with name := minifiedName minifier ns n })
      | none => slots[i]? := by
  induction pairs generalizing slots with
  | nil => rfl
  | cons pair rest ih =>
      obtain ⟨k, n⟩ := pair
      rw [List.map_cons, List.nodup_cons] at nodup
      change (nameAll minifier ns rest (setName slots k _))[i]? = _
      rw [ih nodup.2, List.lookup_cons]
      unfold setName
      rw [List.getElem?_modify]
      by_cases same : i = k
      · subst same
        rw [lookup_eq_none_of_notMem nodup.1]
        simp
      · rw [show (i == k) = false from beq_eq_false_iff_ne.mpr same]
        simp only [if_neg fun equal : k = i => same equal.symm]
        cases slots[i]? with
        | none => rfl
        | some slot => rfl

theorem sortedSlots_keys (slots : List SymbolSlot) :
    ((sortedSlots slots).map (·.slot)).Nodup ∧
      ∀ i, i ∈ (sortedSlots slots).map (·.slot) ↔
        ∃ slot, slots[i]? = some slot ∧ slot.pinned = false := by
  have keys : ((sortedSlots slots).map (·.slot)).Perm
      ((slots.zipIdx.filter fun entry => !entry.1.pinned).map Prod.snd) := by
    unfold sortedSlots
    refine ((List.mergeSort_perm _ _).map _).trans ?_
    rw [List.map_map]
    exact List.Perm.refl _
  constructor
  · rw [keys.nodup_iff]
    refine List.Nodup.sublist (List.filter_sublist.map Prod.snd) ?_
    rw [List.zipIdx_map_snd]
    exact List.nodup_range'
  · intro i
    rw [keys.mem_iff, List.mem_map]
    constructor
    · rintro ⟨⟨slot, index⟩, member, rfl⟩
      rw [List.mem_filter, Bool.not_eq_true', List.mk_mem_zipIdx_iff_getElem?] at member
      exact ⟨slot, member⟩
    · rintro ⟨slot, found, unpinned⟩
      refine ⟨(slot, i), ?_, rfl⟩
      rw [List.mem_filter, Bool.not_eq_true', List.mk_mem_zipIdx_iff_getElem?]
      exact ⟨found, unpinned⟩

/-- A named slot is a pinned one, as it was, or has taken a number of its own. -/
theorem nameAll_slot {slots : List SymbolSlot} {numbers : List ℕ}
    (length : numbers.length = (sortedSlots slots).length) {i : ℕ} {named : SymbolSlot}
    (found : (nameAll minifier ns (((sortedSlots slots).map (·.slot)).zip numbers) slots)[i]? =
      some named) :
    ∃ slot, slots[i]? = some slot ∧
      (slot.pinned = true ∧ named = slot ∨
        slot.pinned = false ∧ ∃ n, (i, n) ∈ ((sortedSlots slots).map (·.slot)).zip numbers ∧
          named = { slot with name := minifiedName minifier ns n }) := by
  obtain ⟨nodup, members⟩ := sortedSlots_keys slots
  have keys : (((sortedSlots slots).map (·.slot)).zip numbers).map Prod.fst =
      (sortedSlots slots).map (·.slot) :=
    List.map_fst_zip (by rw [List.length_map, length])
  rw [nameAll_getElem? _ (by rw [keys]; exact nodup)] at found
  cases slot : slots[i]? with
  | none =>
      rw [slot] at found
      split at found
      · exact absurd found (by simp)
      · exact absurd found (by simp)
  | some kept =>
      refine ⟨kept, rfl, ?_⟩
      rw [slot] at found
      cases chosen : (((sortedSlots slots).map (·.slot)).zip numbers).lookup i with
      | none =>
          rw [chosen] at found
          have absent : i ∉ (sortedSlots slots).map (·.slot) := by
            rw [← keys]
            intro member
            obtain ⟨pair, inPairs, same⟩ := List.mem_map.mp member
            have different := List.lookup_eq_none_iff.mp chosen pair inPairs
            rw [bne_iff_ne] at different
            exact different same.symm
          have pinned : kept.pinned = true := by
            by_contra unpinned
            exact absent ((members i).mpr ⟨kept, slot, Bool.eq_false_iff.mpr unpinned⟩)
          exact Or.inl ⟨pinned, (Option.some_inj.mp found).symm⟩
      | some n =>
          rw [chosen] at found
          have member : (i, n) ∈ ((sortedSlots slots).map (·.slot)).zip numbers := by
            obtain ⟨before, after, pairs, _⟩ := List.lookup_eq_some_iff.mp chosen
            rw [pairs]
            exact List.mem_append_right before List.mem_cons_self
          have key : i ∈ (sortedSlots slots).map (·.slot) := by
            rw [← keys]
            exact List.mem_map.mpr ⟨(i, n), member, rfl⟩
          obtain ⟨other, isSlot, unpinned⟩ := (members i).mp key
          obtain rfl := Option.some_inj.mp (slot.symm.trans isSlot)
          exact Or.inr ⟨unpinned, n, member, (Option.some_inj.mp found).symm⟩

theorem nameAll_isSome {slots : List SymbolSlot} {numbers : List ℕ} {i : ℕ}
    {slot : SymbolSlot} (found : slots[i]? = some slot) :
    ∃ named, (nameAll minifier ns (((sortedSlots slots).map (·.slot)).zip numbers) slots)[i]? =
      some named := by
  have length : ∀ (pairs : List (ℕ × ℕ)) (slots : List SymbolSlot),
      (nameAll minifier ns pairs slots).length = slots.length := by
    intro pairs
    induction pairs with
    | nil => exact fun slots => rfl
    | cons pair rest ih =>
        intro slots
        exact (ih _).trans (List.length_modify _ _ _)
  obtain ⟨bound, _⟩ := List.getElem?_eq_some_iff.mp found
  exact ⟨_, List.getElem?_eq_getElem (by rw [length]; exact bound)⟩

theorem zip_functional {keys numbers : List ℕ} (nodup : keys.Nodup) {i m n : ℕ}
    (left : (i, m) ∈ keys.zip numbers) (right : (i, n) ∈ keys.zip numbers) : m = n := by
  obtain ⟨k, bound, atK⟩ := List.getElem_of_mem left
  obtain ⟨l, bound', atL⟩ := List.getElem_of_mem right
  rw [List.getElem_zip, Prod.mk.injEq] at atK atL
  have same : k = l := nodup.getElem_inj_iff.mp (atK.1.trans atL.1.symm)
  subst same
  exact atK.2.symm.trans atL.2

theorem zip_inj {keys numbers : List ℕ} (ascending : numbers.Pairwise (· < ·)) {i j n : ℕ}
    (left : (i, n) ∈ keys.zip numbers) (right : (j, n) ∈ keys.zip numbers) : i = j := by
  obtain ⟨k, bound, atK⟩ := List.getElem_of_mem left
  obtain ⟨l, bound', atL⟩ := List.getElem_of_mem right
  rw [List.getElem_zip, Prod.mk.injEq] at atK atL
  have nodup : numbers.Nodup := ascending.imp fun less => Nat.ne_of_lt less
  have same : k = l := nodup.getElem_inj_iff.mp (atK.2.trans atL.2.symm)
  subst same
  exact atK.1.symm.trans atL.1

/-! ### The condition -/

/-- No slot that needs a capital comes from a lower-case name that is free to a reserved
one.  The slots are given by their needs, in the order they take names. -/
def CapitalsUnreserved (minifier : NameMinifier) (reservedNames : List (List UInt8)) :
    List Bool → ℕ → Prop
  | [], _ => True
  | false :: rest, next => ∀ n, IsFirst (isFree minifier reservedNames) next n →
      CapitalsUnreserved minifier reservedNames rest (n + 1)
  | true :: rest, next => ∀ free n, IsFirst (isFree minifier reservedNames) next free →
      IsFirst (isCapital minifier) free n →
      minifier.numberToMinifiedName n ∉ reservedNames ∧
        CapitalsUnreserved minifier reservedNames rest (n + 1)

theorem isFree_iff {i : ℕ} :
    isFree minifier reservedNames i = true ↔ minifier.numberToMinifiedName i ∉ reservedNames := by
  unfold isFree
  rw [Bool.not_eq_true', ← Bool.not_eq_true, List.contains_iff_mem]

theorem Numbers.unreserved_iff {capitals : List Bool} {next : ℕ} {numbers : List ℕ}
    (run : Numbers minifier reservedNames .default capitals next numbers) :
    (∀ n ∈ numbers, minifier.numberToMinifiedName n ∉ reservedNames) ↔
      CapitalsUnreserved minifier reservedNames capitals next := by
  induction capitals generalizing next numbers with
  | nil =>
      rw [show numbers = [] from run]
      exact iff_of_true (fun n member => absurd member List.not_mem_nil) trivial
  | cons capital rest ih =>
      obtain ⟨n, later, rfl, ⟨free, first, second⟩, tail⟩ := run
      rw [List.forall_mem_cons, ih tail]
      cases capital with
      | false =>
          obtain rfl : n = free := second
          constructor
          · rintro ⟨_, holds⟩ other isFirst
            rw [isFirst.unique first]
            exact holds
          · intro holds
            exact ⟨isFree_iff.mp first.accepted, holds n first⟩
      | true =>
          have second : IsFirst (isCapital minifier) free n := second
          constructor
          · rintro ⟨unreserved, holds⟩ otherFree other isFirst isSecond
            obtain rfl := isFirst.unique first
            rw [isSecond.unique second]
            exact ⟨unreserved, holds⟩
          · intro holds
            exact holds free n first second

theorem Numbers.chosen {capitals : List Bool} {next : ℕ} {numbers : List ℕ}
    (run : Numbers minifier reservedNames ns capitals next numbers) {k n : ℕ}
    (taken : numbers[k]? = some n) :
    ∃ capital start, capitals[k]? = some capital ∧
      Chooses minifier reservedNames ns capital start n := by
  induction capitals generalizing next numbers k with
  | nil =>
      rw [show numbers = [] from run] at taken
      exact absurd taken (by simp)
  | cons capital rest ih =>
      obtain ⟨first, later, rfl, chooses, tail⟩ := run
      cases k with
      | zero =>
          obtain rfl := Option.some_inj.mp taken
          exact ⟨capital, next, rfl, chooses⟩
      | succ k => exact ih tail taken

theorem chooses_of_mem {slots : List SymbolSlot} {numbers : List ℕ}
    (run : Numbers minifier reservedNames ns
      ((sortedSlots slots).map (needsCapital slots ·.slot)) 0 numbers)
    {i n : ℕ} (member : (i, n) ∈ ((sortedSlots slots).map (·.slot)).zip numbers)
    {slot : SymbolSlot} (found : slots[i]? = some slot) :
    ∃ start, Chooses minifier reservedNames ns slot.needsCapitalForJsx start n := by
  obtain ⟨k, bound, atK⟩ := List.getElem_of_mem member
  have pair : (((sortedSlots slots).map (·.slot)).zip numbers)[k]? = some (i, n) := by
    rw [List.getElem?_eq_getElem bound, atK]
  obtain ⟨key, taken⟩ := List.getElem?_zip_eq_some.mp pair
  obtain ⟨capital, start, need, chooses⟩ := run.chosen taken
  have same : capital = slot.needsCapitalForJsx := by
    rw [List.getElem?_map, Option.map_eq_some_iff] at key need
    obtain ⟨data, isData, isKey⟩ := key
    obtain ⟨other, isOther, isNeed⟩ := need
    obtain rfl := Option.some_inj.mp (isData.symm.trans isOther)
    rw [← isNeed, isKey]
    unfold needsCapital
    rw [found]
    rfl
  rw [← same]
  exact ⟨start, chooses⟩

theorem minifiedName_injective (wellFormed : minifier.WellFormed) {a b : ℕ}
    (same : minifiedName minifier ns a = minifiedName minifier ns b) : a = b := by
  have injective := NameMinifier.numberToMinifiedName_injective wellFormed
  unfold minifiedName at same
  split at same
  · exact injective (List.cons_eq_cons.mp same).2
  · exact injective same

theorem nameAll_distinct (wellFormed : minifier.WellFormed) {slots : List SymbolSlot}
    {numbers : List ℕ} (length : numbers.length = (sortedSlots slots).length)
    (ascending : numbers.Pairwise (· < ·))
    (pinned : slots.Pairwise fun a b => a.pinned = true → b.pinned = true → a.name ≠ b.name)
    (apart : ∀ slot ∈ slots, slot.pinned = true → ∀ n ∈ numbers,
      slot.name ≠ minifiedName minifier ns n) :
    (nameAll minifier ns (((sortedSlots slots).map (·.slot)).zip numbers) slots).Pairwise
      (·.name ≠ ·.name) := by
  rw [List.pairwise_iff_getElem]
  intro i j iBound jBound less
  obtain ⟨left, isLeft, leftCases⟩ := nameAll_slot length (List.getElem?_eq_getElem iBound)
  obtain ⟨right, isRight, rightCases⟩ := nameAll_slot length (List.getElem?_eq_getElem jBound)
  have number {k n : ℕ} (member : (k, n) ∈ ((sortedSlots slots).map (·.slot)).zip numbers) :
      n ∈ numbers :=
    (List.of_mem_zip member).2
  rcases leftCases with ⟨leftPinned, sameLeft⟩ | ⟨_, n, leftNumber, sameLeft⟩
  · rcases rightCases with ⟨rightPinned, sameRight⟩ | ⟨_, m, rightNumber, sameRight⟩
    · rw [sameLeft, sameRight]
      obtain ⟨iBefore, atI⟩ := List.getElem?_eq_some_iff.mp isLeft
      obtain ⟨jBefore, atJ⟩ := List.getElem?_eq_some_iff.mp isRight
      have differ := List.pairwise_iff_getElem.mp pinned i j iBefore jBefore less
      rw [atI, atJ] at differ
      exact differ leftPinned rightPinned
    · rw [sameLeft, sameRight]
      exact apart left (List.mem_of_getElem? isLeft) leftPinned m (number rightNumber)
  · rcases rightCases with ⟨rightPinned, sameRight⟩ | ⟨_, m, rightNumber, sameRight⟩
    · rw [sameLeft, sameRight]
      exact (apart right (List.mem_of_getElem? isRight) rightPinned n (number leftNumber)).symm
    · rw [sameLeft, sameRight]
      intro same
      rw [minifiedName_injective wellFormed same] at leftNumber
      exact absurd (zip_inj ascending leftNumber rightNumber) (Nat.ne_of_lt less)

/-! ### All namespaces -/

structure WellPinned (renamer : MinifyRenamer) : Prop where
  only_default : ∀ ns, ns ≠ .default → ∀ slot ∈ renamer.slots ns,
    slot.pinned = false ∧ slot.needsCapitalForJsx = false
  reserved : ∀ slot ∈ renamer.slots .default, slot.pinned = true →
    slot.name ∈ renamer.reservedNames
  distinct : (renamer.slots .default).Pairwise fun a b =>
    a.pinned = true → b.pinned = true → a.name ≠ b.name

structure WellNamed (renamer : MinifyRenamer) : Prop where
  distinct : ∀ ns ∈ slotNamespaces, (renamer.slots ns).Pairwise (·.name ≠ ·.name)
  unreserved : ∀ slot ∈ renamer.slots .default, slot.pinned = false →
    slot.name ∉ renamer.reservedNames
  no_keyword : ∀ slot ∈ renamer.slots .label, slot.name ∉ keywords
  capital : ∀ ns ∈ slotNamespaces, ∀ slot ∈ renamer.slots ns, slot.needsCapitalForJsx = true →
    NameMinifier.startsLowercase slot.name = false

def CapitalsFree (minifier : NameMinifier) (renamer : MinifyRenamer) : Prop :=
  CapitalsUnreserved minifier renamer.reservedNames
      ((sortedSlots (renamer.slots .default)).map
        (needsCapital (renamer.slots .default) ·.slot)) 0 ∧
    ∀ slot ∈ renamer.slots .default, slot.pinned = true → slot.needsCapitalForJsx = true →
      NameMinifier.startsLowercase slot.name = false

structure Run (minifier : NameMinifier) (renamer : MinifyRenamer)
    (numbers : SlotNamespace → List ℕ) : Prop where
  taken : ∀ ns, ns ≠ .mustNotBeRenamed →
    Numbers minifier renamer.reservedNames ns
      ((sortedSlots (renamer.slots ns)).map (needsCapital (renamer.slots ns) ·.slot)) 0 (numbers ns)
  unnamed : numbers .mustNotBeRenamed = []

def named (minifier : NameMinifier) (renamer : MinifyRenamer)
    (numbers : SlotNamespace → List ℕ) : MinifyRenamer :=
  { renamer with
    slots := fun ns => nameAll minifier ns
      (((sortedSlots (renamer.slots ns)).map (·.slot)).zip (numbers ns)) (renamer.slots ns) }

theorem exists_run (wellFormed : minifier.WellFormed) (renamer : MinifyRenamer) :
    ∃ numbers, Run minifier renamer numbers := by
  have each : ∀ ns, ∃ list : List ℕ, (ns ≠ .mustNotBeRenamed →
      Numbers minifier renamer.reservedNames ns
        ((sortedSlots (renamer.slots ns)).map (needsCapital (renamer.slots ns) ·.slot)) 0 list) ∧
      (ns = .mustNotBeRenamed → list = []) := by
    intro ns
    by_cases unnamed : ns = .mustNotBeRenamed
    · exact ⟨[], fun other => absurd unnamed other, fun _ => rfl⟩
    · obtain ⟨list, run⟩ : ∃ list, Numbers minifier renamer.reservedNames ns
          ((sortedSlots (renamer.slots ns)).map (needsCapital (renamer.slots ns) ·.slot)) 0 list :=
        exists_numbers wellFormed _ 0
      exact ⟨list, fun _ => run, fun same => absurd same unnamed⟩
  choose numbers spec using each
  exact ⟨numbers, fun ns other => (spec ns).1 other, (spec .mustNotBeRenamed).2 rfl⟩

theorem exists_bound (numbers : List ℕ) : ∃ bound, ∀ n ∈ numbers, n < bound := by
  induction numbers with
  | nil => exact ⟨0, fun n member => absurd member List.not_mem_nil⟩
  | cons n rest ih =>
      obtain ⟨bound, below⟩ := ih
      refine ⟨max bound (n + 1), fun m member => ?_⟩
      rcases List.mem_cons.mp member with rfl | inRest
      · omega
      · have less := below m inRest
        omega

theorem Run.assignNamesByFrequency_eq {renamer : MinifyRenamer}
    {numbers : SlotNamespace → List ℕ} (run : Run minifier renamer numbers) :
    ∃ rounds, ∀ fuel, rounds ≤ fuel →
      assignNamesByFrequency fuel minifier renamer = some (named minifier renamer numbers) := by
  obtain ⟨rounds, below⟩ := exists_bound (slotNamespaces.flatMap numbers)
  refine ⟨rounds, fun fuel enough => ?_⟩
  have slots (ns : SlotNamespace) (member : ns ∈ slotNamespaces) (other : ns ≠ .mustNotBeRenamed) :
      nameSlots fuel minifier renamer.reservedNames ns (sortedSlots (renamer.slots ns)) 0
        (renamer.slots ns) = some ((named minifier renamer numbers).slots ns) :=
    nameSlots_of_numbers (run.taken ns other) fun n inNumbers =>
      (below n (List.mem_flatMap.mpr ⟨ns, member, inNumbers⟩)).trans_le enough
  unfold assignNamesByFrequency slotNamespaces
  simp only [List.foldlM_cons, List.foldlM_nil, setSlots, reduceCtorEq, if_false,
    slots .default (by decide) (by decide), slots .label (by decide) (by decide),
    slots .privateName (by decide) (by decide), slots .mangledProp (by decide) (by decide),
    Option.bind_eq_bind, Option.bind_some, Option.pure_def]
  congr 1
  unfold named
  congr 1
  funext ns
  cases ns with
  | mustNotBeRenamed =>
      rw [run.unnamed]
      simp [nameAll]
  | default | label | privateName | mangledProp => rfl

theorem Run.length {renamer : MinifyRenamer} {numbers : SlotNamespace → List ℕ}
    (run : Run minifier renamer numbers) {ns : SlotNamespace} (other : ns ≠ .mustNotBeRenamed) :
    (numbers ns).length = (sortedSlots (renamer.slots ns)).length := by
  rw [(run.taken ns other).length, List.length_map]

theorem Run.slot {renamer : MinifyRenamer} {numbers : SlotNamespace → List ℕ}
    (run : Run minifier renamer numbers) {ns : SlotNamespace} (other : ns ≠ .mustNotBeRenamed)
    {slot : SymbolSlot} (member : slot ∈ (named minifier renamer numbers).slots ns) :
    ∃ original ∈ renamer.slots ns, slot.needsCapitalForJsx = original.needsCapitalForJsx ∧
      (original.pinned = true ∧ slot = original ∨
        original.pinned = false ∧ slot.pinned = false ∧ ∃ n ∈ numbers ns, ∃ start,
          slot.name = minifiedName minifier ns n ∧
            Chooses minifier renamer.reservedNames ns slot.needsCapitalForJsx start n) := by
  obtain ⟨i, found⟩ := List.getElem?_of_mem member
  obtain ⟨original, isSlot, kinds⟩ := nameAll_slot (run.length other) found
  refine ⟨original, List.mem_of_getElem? isSlot, ?_⟩
  rcases kinds with ⟨isPinned, rfl⟩ | ⟨unpinned, n, taken, rfl⟩
  · exact ⟨rfl, Or.inl ⟨isPinned, rfl⟩⟩
  · obtain ⟨start, chooses⟩ := chooses_of_mem (run.taken ns other) taken isSlot
    exact ⟨rfl, Or.inr ⟨unpinned, unpinned, n, (List.of_mem_zip taken).2, start, rfl, chooses⟩⟩

theorem Run.mem_of_pinned {renamer : MinifyRenamer} {numbers : SlotNamespace → List ℕ}
    (run : Run minifier renamer numbers) {ns : SlotNamespace} (other : ns ≠ .mustNotBeRenamed)
    {slot : SymbolSlot} (member : slot ∈ renamer.slots ns) (isPinned : slot.pinned = true) :
    slot ∈ (named minifier renamer numbers).slots ns := by
  obtain ⟨i, found⟩ := List.getElem?_of_mem member
  obtain ⟨result, isNamed⟩ : ∃ result, ((named minifier renamer numbers).slots ns)[i]? = some result :=
    nameAll_isSome found
  obtain ⟨original, isSlot, kinds⟩ := nameAll_slot (run.length other) isNamed
  obtain rfl := Option.some_inj.mp (found.symm.trans isSlot)
  rcases kinds with ⟨_, rfl⟩ | ⟨unpinned, _⟩
  · exact List.mem_of_getElem? isNamed
  · rw [isPinned] at unpinned
    exact absurd unpinned (by decide)

theorem Run.slot_of_number {renamer : MinifyRenamer} {numbers : SlotNamespace → List ℕ}
    (run : Run minifier renamer numbers) {ns : SlotNamespace} (other : ns ≠ .mustNotBeRenamed)
    {n : ℕ} (taken : n ∈ numbers ns) :
    ∃ slot ∈ (named minifier renamer numbers).slots ns, slot.pinned = false ∧
      slot.name = minifiedName minifier ns n := by
  obtain ⟨nodup, members⟩ := sortedSlots_keys (renamer.slots ns)
  obtain ⟨k, bound, atK⟩ := List.getElem_of_mem taken
  have keyBound : k < ((sortedSlots (renamer.slots ns)).map (·.slot)).length := by
    rw [List.length_map, ← run.length other]
    exact bound
  have pair : ((((sortedSlots (renamer.slots ns)).map (·.slot))[k], n) : ℕ × ℕ) ∈
      ((sortedSlots (renamer.slots ns)).map (·.slot)).zip (numbers ns) := by
    have zipBound : k < (((sortedSlots (renamer.slots ns)).map (·.slot)).zip (numbers ns)).length := by
      rw [List.length_zip]
      exact lt_min keyBound bound
    rw [← atK, ← List.getElem_zip]
    exact List.getElem_mem zipBound
  obtain ⟨original, found, unpinned⟩ := (members _).mp (List.getElem_mem keyBound)
  obtain ⟨result, isNamed⟩ : ∃ result, ((named minifier renamer numbers).slots ns)[
      ((sortedSlots (renamer.slots ns)).map (·.slot))[k]]? = some result :=
    nameAll_isSome found
  refine ⟨result, List.mem_of_getElem? isNamed, ?_⟩
  obtain ⟨slot, isSlot, kinds⟩ := nameAll_slot (run.length other) isNamed
  obtain rfl := Option.some_inj.mp (found.symm.trans isSlot)
  rcases kinds with ⟨isPinned, _⟩ | ⟨_, m, number, rfl⟩
  · rw [isPinned] at unpinned
    exact absurd unpinned (by decide)
  · rw [zip_functional nodup pair number]
    exact ⟨unpinned, rfl⟩

/-- The names are right as soon as no number of a default slot is a reserved name's. -/
theorem Run.wellNamed (wellFormed : minifier.WellFormed) {renamer : MinifyRenamer}
    (pinned : renamer.WellPinned) {numbers : SlotNamespace → List ℕ}
    (run : Run minifier renamer numbers)
    (unreserved : ∀ n ∈ numbers .default,
      minifier.numberToMinifiedName n ∉ renamer.reservedNames)
    (capitals : ∀ slot ∈ renamer.slots .default, slot.pinned = true →
      slot.needsCapitalForJsx = true → NameMinifier.startsLowercase slot.name = false) :
    (named minifier renamer numbers).WellNamed where
  distinct := by
    intro ns renamed
    have other : ns ≠ .mustNotBeRenamed := by
      rintro rfl
      exact absurd renamed (by decide)
    refine nameAll_distinct wellFormed (run.length other) (run.taken ns other).ascending.2 ?_ ?_
    · by_cases isDefault : ns = .default
      · rw [isDefault]
        exact pinned.distinct
      · refine List.pairwise_of_forall_mem_list fun a member b _ isPinned => ?_
        rw [(pinned.only_default ns isDefault a member).1] at isPinned
        exact absurd isPinned Bool.false_ne_true
    · intro slot member isPinned n taken
      by_cases isDefault : ns = .default
      · subst isDefault
        intro same
        have reserved := pinned.reserved slot member isPinned
        rw [same] at reserved
        exact unreserved n taken reserved
      · rw [(pinned.only_default ns isDefault slot member).1] at isPinned
        exact absurd isPinned Bool.false_ne_true
  unreserved := by
    intro slot member unpinned
    obtain ⟨original, _, _, ⟨isPinned, rfl⟩ | ⟨_, _, n, taken, _, name, _⟩⟩ :=
      run.slot (by decide) member
    · rw [isPinned] at unpinned
      exact absurd unpinned (by decide)
    · rw [name]
      exact unreserved n taken
  no_keyword := by
    intro slot member
    obtain ⟨original, inSlots, _, ⟨isPinned, rfl⟩ | ⟨_, _, n, _, _, name, chooses⟩⟩ :=
      run.slot (by decide) member
    · rw [(pinned.only_default .label (by decide) slot inSlots).1] at isPinned
      exact absurd isPinned Bool.false_ne_true
    · have chooses : IsFirst (isNoKeyword minifier) _ n := chooses
      have accepted := chooses.accepted
      unfold isNoKeyword at accepted
      rw [Bool.not_eq_true', ← Bool.not_eq_true, List.contains_iff_mem] at accepted
      rw [name]
      exact accepted
  capital := by
    intro ns renamed slot member needs
    have other : ns ≠ .mustNotBeRenamed := by
      rintro rfl
      exact absurd renamed (by decide)
    obtain ⟨original, inSlots, same, kinds⟩ := run.slot other member
    by_cases isDefault : ns = .default
    · subst isDefault
      rcases kinds with ⟨isPinned, rfl⟩ | ⟨_, _, n, _, _, name, chooses⟩
      · exact capitals slot inSlots isPinned needs
      · rw [needs] at chooses
        obtain ⟨free, _, second⟩ := chooses
        have second : IsFirst (isCapital minifier) free n := second
        have accepted := second.accepted
        unfold isCapital at accepted
        rw [Bool.not_eq_true'] at accepted
        rw [name]
        exact accepted
    · rw [same, (pinned.only_default ns isDefault original inSlots).2] at needs
      exact absurd needs Bool.false_ne_true

/-- The names are right exactly when no capital runs into a reserved name. -/
theorem Run.wellNamed_iff (wellFormed : minifier.WellFormed) {renamer : MinifyRenamer}
    (pinned : renamer.WellPinned) {numbers : SlotNamespace → List ℕ}
    (run : Run minifier renamer numbers) :
    (named minifier renamer numbers).WellNamed ↔ CapitalsFree minifier renamer := by
  have numbersOf := (run.taken .default (by decide)).unreserved_iff
  constructor
  · intro wellNamed
    refine ⟨numbersOf.mp fun n taken => ?_, fun slot member isPinned needs => ?_⟩
    · obtain ⟨slot, member, unpinned, name⟩ := run.slot_of_number (by decide) taken
      have unreserved := wellNamed.unreserved slot member unpinned
      rw [name] at unreserved
      exact unreserved
    · have stays := run.mem_of_pinned (by decide) member isPinned
      exact wellNamed.capital .default (by decide) slot stays needs
  · rintro ⟨unreserved, capitals⟩
    exact run.wellNamed wellFormed pinned (numbersOf.mpr unreserved) capitals

/-! ### Pins -/

theorem init_wellPinned (firstTopLevelSlots : SlotNamespace → ℕ)
    (reservedNames : List (List UInt8)) : (init firstTopLevelSlots reservedNames).WellPinned := by
  have fresh : ∀ ns, ∀ slot ∈ (init firstTopLevelSlots reservedNames).slots ns, slot = {} :=
    fun ns slot member => (List.mem_replicate.mp member).2
  refine ⟨fun ns _ slot member => ?_, fun slot member isPinned => ?_, ?_⟩
  · rw [fresh ns slot member]
    exact ⟨rfl, rfl⟩
  · rw [fresh .default slot member] at isPinned
    exact absurd isPinned Bool.false_ne_true
  · refine List.pairwise_of_forall_mem_list fun a member b _ isPinned => ?_
    rw [fresh .default a member] at isPinned
    exact absurd isPinned Bool.false_ne_true

/-- What a pin changes: one slot of the bindings, and the reserved names. -/
theorem pin_cases {symbols : SymbolMap} {renamer : MinifyRenamer} {ref : Ref}
    {name : List UInt8} (binding : (symbols.get (symbols.follow ref)).slotNamespace = .default) :
    pin symbols renamer ref name = renamer ∨
      ∃ i, (∀ ns, ns ≠ .default → (pin symbols renamer ref name).slots ns = renamer.slots ns) ∧
        (pin symbols renamer ref name).slots .default =
          (renamer.slots .default).modify i ({ · with name, pinned := true }) ∧
        (pin symbols renamer ref name).reservedNames = name :: renamer.reservedNames := by
  unfold pin
  dsimp only
  cases renamer.topLevelSymbolToSlot.lookup (symbols.follow ref) with
  | none => exact Or.inl rfl
  | some i =>
      refine Or.inr ⟨i, fun ns other => ?_, ?_, rfl⟩
      · unfold setSlots
        rw [binding]
        exact if_neg other
      · unfold setSlots
        rw [binding]
        rfl

theorem pin_wellPinned {symbols : SymbolMap} {renamer : MinifyRenamer}
    (pinned : renamer.WellPinned) {ref : Ref} {name : List UInt8}
    (binding : (symbols.get (symbols.follow ref)).slotNamespace = .default)
    (unreserved : name ∉ renamer.reservedNames) : (pin symbols renamer ref name).WellPinned := by
  rcases pin_cases binding with same | ⟨i, others, changed, reserved⟩
  · rw [same]
    exact pinned
  · have slot {j : ℕ} {result : SymbolSlot}
        (found : ((pin symbols renamer ref name).slots .default)[j]? = some result) :
        (j = i ∧ result.name = name) ∨ (renamer.slots .default)[j]? = some result := by
      rw [changed, List.getElem?_modify] at found
      obtain ⟨original, isSlot, same⟩ := Option.map_eq_some_iff.mp found
      split at same
      · rename_i here
        rw [← same]
        exact Or.inl ⟨here.symm, rfl⟩
      · subst same
        exact Or.inr isSlot
    have other {j : ℕ} {result : SymbolSlot}
        (found : (renamer.slots .default)[j]? = some result) (isPinned : result.pinned = true) :
        result.name ≠ name := by
      intro same
      have member := pinned.reserved result (List.mem_of_getElem? found) isPinned
      rw [same] at member
      exact unreserved member
    refine ⟨fun ns notDefault kept member => ?_, fun kept member isPinned => ?_, ?_⟩
    · rw [others ns notDefault] at member
      exact pinned.only_default ns notDefault kept member
    · obtain ⟨j, found⟩ := List.getElem?_of_mem member
      rw [reserved]
      rcases slot found with ⟨_, isName⟩ | original
      · rw [isName]
        exact List.mem_cons_self
      · exact List.mem_cons_of_mem name
          (pinned.reserved kept (List.mem_of_getElem? original) isPinned)
    · rw [List.pairwise_iff_getElem]
      intro a b aBound bBound less aPinned bPinned
      rcases slot (List.getElem?_eq_getElem aBound) with ⟨aHere, aName⟩ | aOriginal
      · rcases slot (List.getElem?_eq_getElem bBound) with ⟨bHere, _⟩ | bOriginal
        · omega
        · rw [aName]
          exact (other bOriginal bPinned).symm
      · rcases slot (List.getElem?_eq_getElem bBound) with ⟨_, bName⟩ | bOriginal
        · rw [bName]
          exact other aOriginal aPinned
        · obtain ⟨aBefore, atA⟩ := List.getElem?_eq_some_iff.mp aOriginal
          obtain ⟨bBefore, atB⟩ := List.getElem?_eq_some_iff.mp bOriginal
          have differ := List.pairwise_iff_getElem.mp pinned.distinct a b aBefore bBefore less
          rw [atA, atB] at differ
          exact differ aPinned bPinned

theorem pins_wellPinned {symbols : SymbolMap} (pins : List (Ref × List UInt8))
    {renamer : MinifyRenamer} (pinned : renamer.WellPinned)
    (bindings : ∀ ref name, (ref, name) ∈ pins →
      (symbols.get (symbols.follow ref)).slotNamespace = .default ∧
        name ∉ renamer.reservedNames)
    (distinct : (pins.map Prod.snd).Nodup) :
    (pins.foldl (fun renamer (ref, name) => pin symbols renamer ref name) renamer).WellPinned := by
  induction pins generalizing renamer with
  | nil => exact pinned
  | cons first rest ih =>
      obtain ⟨ref, name⟩ := first
      rw [List.map_cons, List.nodup_cons] at distinct
      obtain ⟨binding, unreserved⟩ := bindings ref name List.mem_cons_self
      refine ih (pin_wellPinned pinned binding unreserved) (fun other text member => ?_) distinct.2
      obtain ⟨isDefault, free⟩ := bindings other text (List.mem_cons_of_mem _ member)
      refine ⟨isDefault, ?_⟩
      change text ∉ (pin symbols renamer ref name).reservedNames
      rcases pin_cases binding with same | ⟨i, _, _, reserved⟩
      · rw [same]
        exact free
      · rw [reserved, List.mem_cons, not_or]
        refine ⟨fun equal => ?_, free⟩
        exact distinct.1 (List.mem_map.mpr ⟨(other, text), member, equal⟩)

/-! ### The names -/

/-- All loops of a run end, and the names are right if and only if no slot that needs a
capital runs into a reserved name. -/
theorem assignNamesByFrequency_wellNamed_iff (freq : CharFreq) (renamer : MinifyRenamer)
    (pinned : renamer.WellPinned) :
    ∃ rounds result, (∀ fuel, rounds ≤ fuel →
        assignNamesByFrequency fuel freq.compile renamer = some result) ∧
      (result.WellNamed ↔ CapitalsFree freq.compile renamer) := by
  have wellFormed := NameMinifier.compile_wellFormed freq
  obtain ⟨numbers, run⟩ := exists_run wellFormed renamer
  obtain ⟨rounds, ends⟩ := run.assignNamesByFrequency_eq
  exact ⟨rounds, named freq.compile renamer numbers, ends, run.wellNamed_iff wellFormed pinned⟩

/-- One binding that crosses chunks, and one that does not. -/
def pinnedBesideLocal : MinifyRenamer where
  reservedNames := [ascii "A", ascii "$"]
  slots := fun ns =>
    if ns = .default then [{ name := ascii "A", pinned := true }, { count := 5 }] else []

theorem pinnedBesideLocal_wellPinned : pinnedBesideLocal.WellPinned where
  only_default := by
    intro ns other slot member
    unfold pinnedBesideLocal at member
    simp only [if_neg other] at member
    exact absurd member List.not_mem_nil
  reserved := by decide
  distinct := by decide

theorem assignNamesByFrequency_pinnedBesideLocal :
    pinnedBesideLocal.WellPinned ∧
      ∃ rounds result, (∀ fuel, rounds ≤ fuel →
          assignNamesByFrequency fuel (CharFreq.compile ⟨fun _ => 0⟩) pinnedBesideLocal =
            some result) ∧
        result.WellNamed := by
  refine ⟨pinnedBesideLocal_wellPinned, ?_⟩
  obtain ⟨rounds, result, ends, iff⟩ := assignNamesByFrequency_wellNamed_iff ⟨fun _ => 0⟩
    pinnedBesideLocal pinnedBesideLocal_wellPinned
  refine ⟨rounds, result, ends, iff.mpr ⟨?_, by decide⟩⟩
  have needs : (sortedSlots (pinnedBesideLocal.slots .default)).map
      (needsCapital (pinnedBesideLocal.slots .default) ·.slot) = [false] := by
    decide +kernel
  rw [needs]
  exact fun _ _ => trivial

/-- One slot of a JSX tag in a file that also uses a global named `A`. -/
def tagBesideGlobal : MinifyRenamer where
  reservedNames := [ascii "$", ascii "A"]
  slots := fun ns => if ns = .default then [{ count := 1, needsCapitalForJsx := true }] else []

theorem tagBesideGlobal_wellPinned : tagBesideGlobal.WellPinned where
  only_default := by
    intro ns other slot member
    unfold tagBesideGlobal at member
    simp only [if_neg other] at member
    exact absurd member List.not_mem_nil
  reserved := by decide
  distinct := by decide

/-- The slot takes `A`, the first name with a capital, and the global is lost. -/
theorem capital_takes_reserved_name :
    tagBesideGlobal.WellPinned ∧
      ∃ result, assignNamesByFrequency 60 (CharFreq.compile ⟨fun _ => 0⟩) tagBesideGlobal =
        some result ∧ ¬ result.WellNamed := by
  refine ⟨tagBesideGlobal_wellPinned, ?_⟩
  have slots : (assignNamesByFrequency 60 (CharFreq.compile ⟨fun _ => 0⟩) tagBesideGlobal).map
      (fun result => (result.slots .default, result.reservedNames)) =
        some ([{ name := ascii "A", count := 1, needsCapitalForJsx := true }],
          [ascii "$", ascii "A"]) := by
    rw [CharFreq.compile_zero]
    decide +kernel
  obtain ⟨result, isResult, same⟩ := Option.map_eq_some_iff.mp slots
  refine ⟨result, isResult, fun wellNamed => ?_⟩
  rw [Prod.mk.injEq] at same
  have unreserved := wellNamed.unreserved
  rw [same.1, same.2] at unreserved
  exact unreserved _ List.mem_cons_self rfl (by decide)

end MinifyRenamer

end Bun.Renamer
