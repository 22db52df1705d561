/-
Fixes: spans of the source text with the texts that replace them.

A rule's fixes are merged into one, which fails where two of them overlap.  Of the fixes of a
file, those are applied that do not touch an earlier one; the others wait for another run.
Fixes that stand one behind another are substituted piece by piece: what is between two
spans is copied, and each span's text is put in its place.
-/

import Mathlib.Data.List.Sort

set_option autoImplicit false

namespace Bun.Lint

structure Span where
  start : ℕ
  stop : ℕ
deriving DecidableEq, Repr

structure Fix where
  span : Span
  text : List UInt8
deriving DecidableEq, Repr

namespace Span

def before (start : ℕ) (next : Span) : Span :=
  ⟨start, next.start⟩

end Span

/-- `File::slice`: the text of a span, and nothing for one that is not a range of the text. -/
def slice (file : List UInt8) (span : Span) : List UInt8 :=
  if max span.stop span.start ≤ file.length then
    (file.take (max span.stop span.start)).drop span.start
  else []

def KeyLE (a b : Fix) : Prop :=
  a.span.start < b.span.start ∨ a.span.start = b.span.start ∧ a.span.stop ≤ b.span.stop

instance : DecidableRel KeyLE :=
  fun a b => inferInstanceAs (Decidable (a.span.start < b.span.start ∨ _ ∧ _))

/-- `sort_by_key` with that key, which keeps fixes with the same span in their order. -/
def sortFixes (fixes : List Fix) : List Fix :=
  fixes.insertionSort KeyLE

/-! ### Merging -/

/-- The loop of `into_fix`: the merged text, and where the last span ends. -/
def mergeFrom (file : List UInt8) : List Fix → ℕ → List UInt8 → Option (List UInt8 × ℕ)
  | [], place, text => some (text, place)
  | fix :: rest, place, text =>
      if fix.span.start < place then none
      else mergeFrom file rest fix.span.stop
        (text ++ (slice file (Span.before place fix.span) ++ fix.text))

def intoFix (file : List UInt8) (fixes : List Fix) : Option Fix :=
  if fixes.length ≤ 1 then fixes.getLast?
  else do
    let sorted := sortFixes fixes
    let first ← sorted.head?
    let last ← sorted.getLast?
    let (text, place) ← mergeFrom file sorted first.span.start []
    return { span := ⟨first.span.start, max last.span.stop place⟩, text }

/-! ### Applying -/

/-- The loop of `apply_fixes`: what is written, and whether a fix was applied. -/
def applyFrom (text : List UInt8) : List Fix → ℤ → ℕ → List UInt8 → Bool → List UInt8 × Bool
  | [], _, place, out, applied => (out ++ text.drop place, applied)
  | fix :: rest, last, place, out, applied =>
      if last ≥ fix.span.start ∨ fix.span.start > fix.span.stop then
        applyFrom text rest last place out applied
      else
        let start := min fix.span.start text.length
        applyFrom text rest fix.span.stop (min fix.span.stop text.length)
          (out ++ ((text.take start).drop (min place start) ++ fix.text)) true

def applyFixes (text : List UInt8) (fixes : List Fix) : Option (List UInt8) :=
  let (out, applied) := applyFrom text (sortFixes fixes) (-1) 0 [] false
  if applied then some out else none

/-! ### Substituting at once -/

def placeOf (text : List UInt8) (fix : Fix) : ℕ :=
  min fix.span.start text.length

def textsAt (text : List UInt8) (fixes : List Fix) (i : ℕ) : List UInt8 :=
  (fixes.filter (placeOf text · == i)).flatMap (·.text)

def keptByte (text : List UInt8) (fixes : List Fix) (i : ℕ) : List UInt8 :=
  if fixes.any fun fix => decide (fix.span.start ≤ i ∧ i < fix.span.stop) then []
  else (text[i]?).toList

def substitute (text : List UInt8) (fixes : List Fix) : List UInt8 :=
  (List.range' 0 (text.length + 1)).flatMap fun i => textsAt text fixes i ++ keptByte text fixes i

def Overlap (a b : Fix) : Prop :=
  a.span.start < b.span.stop ∧ b.span.start < a.span.stop

/-- Two spans have a place in common, their ends included. -/
def Touch (a b : Fix) : Prop :=
  a.span.start ≤ b.span.stop ∧ b.span.start ≤ a.span.stop

/-! ### Substituting piece by piece -/

def Laid : ℕ → List Fix → Prop
  | _, [] => True
  | place, fix :: rest =>
      place ≤ fix.span.start ∧ fix.span.start ≤ fix.span.stop ∧ Laid fix.span.stop rest

def pieces (text : List UInt8) : ℕ → List Fix → List UInt8
  | place, [] => text.drop place
  | place, fix :: rest =>
      (text.take fix.span.start).drop place ++ (fix.text ++ pieces text fix.span.stop rest)

theorem Laid.mem {place : ℕ} {fixes : List Fix} (laid : Laid place fixes) :
    ∀ fix ∈ fixes, place ≤ fix.span.start ∧ fix.span.start ≤ fix.span.stop := by
  induction fixes generalizing place with
  | nil => exact fun fix isIn => nomatch isIn
  | cons first rest ih =>
      obtain ⟨behind, ordered, later⟩ := laid
      intro fix isIn
      rcases List.mem_cons.mp isIn with rfl | isLater
      · exact ⟨behind, ordered⟩
      · have both := ih later fix isLater
        exact ⟨by omega, both.2⟩

theorem textsAt_nil {text : List UInt8} {fixes : List Fix} {i : ℕ}
    (elsewhere : ∀ fix ∈ fixes, i < placeOf text fix) : textsAt text fixes i = [] := by
  unfold textsAt
  rw [List.filter_eq_nil_iff.mpr]
  · rfl
  · intro fix isIn isHere
    have := elsewhere fix isIn
    have := eq_of_beq isHere
    omega

theorem textsAt_cons (text : List UInt8) (fix : Fix) (rest : List Fix) (i : ℕ) :
    textsAt text (fix :: rest) i =
      (if placeOf text fix = i then fix.text else []) ++ textsAt text rest i := by
  unfold textsAt
  by_cases here : placeOf text fix = i
  · rw [if_pos here, List.filter_cons_of_pos (by simpa using here), List.flatMap_cons]
  · rw [if_neg here, List.filter_cons_of_neg (by simpa using here)]
    rfl

theorem keptByte_cons (text : List UInt8) (fix : Fix) (rest : List Fix) (i : ℕ) :
    keptByte text (fix :: rest) i =
      if fix.span.start ≤ i ∧ i < fix.span.stop then [] else keptByte text rest i := by
  unfold keptByte
  rw [List.any_cons]
  by_cases covers : fix.span.start ≤ i ∧ i < fix.span.stop
  · rw [if_pos covers, decide_eq_true covers, Bool.true_or, if_pos rfl]
  · rw [if_neg covers, decide_eq_false covers, Bool.false_or]

theorem keptByte_end {text : List UInt8} (fixes : List Fix) {i : ℕ} (isEnd : text.length ≤ i) :
    keptByte text fixes i = [] := by
  unfold keptByte
  rw [List.getElem?_eq_none isEnd]
  split
  · rfl
  · rfl

theorem keptByte_before {text : List UInt8} {fixes : List Fix} {i : ℕ}
    (before : ∀ fix ∈ fixes, i < fix.span.start) :
    keptByte text fixes i = (text[i]?).toList := by
  induction fixes with
  | nil => rfl
  | cons fix rest ih =>
      have isBefore := before fix List.mem_cons_self
      rw [keptByte_cons, if_neg (by omega)]
      exact ih (fun other isIn => before other (List.mem_cons_of_mem _ isIn))

def bytesAt (text : List UInt8) (fixes : List Fix) (i : ℕ) : List UInt8 :=
  textsAt text fixes i ++ keptByte text fixes i

theorem flatMap_bytes (text : List UInt8) (place count : ℕ) :
    (List.range' place count).flatMap (fun i => (text[i]?).toList) =
      (text.take (place + count)).drop place := by
  induction count generalizing place with
  | zero =>
      rw [List.range'_zero, Nat.add_zero, List.drop_eq_nil_of_le (List.length_take_le _ _)]
      rfl
  | succ count ih =>
      have shift : place + 1 + count = place + (count + 1) := by omega
      rw [List.range'_succ, List.flatMap_cons, ih, shift]
      by_cases inside : place < text.length
      · have isByte : (text.take (place + (count + 1)))[place]? = some text[place] := by
          rw [List.getElem?_take, if_pos (by omega), List.getElem?_eq_getElem inside]
        obtain ⟨insideTake, same⟩ := List.getElem?_eq_some_iff.mp isByte
        rw [List.drop_eq_getElem_cons insideTake, same, List.getElem?_eq_getElem inside]
        rfl
      · have isEnd : (text.take (place + (count + 1))).length ≤ place := by
          rw [List.length_take]
          omega
        rw [List.getElem?_eq_none (by omega), List.drop_eq_nil_of_le isEnd,
          List.drop_eq_nil_of_le (by omega)]
        rfl

theorem flatMap_fix {text : List UInt8} {fix : Fix} {rest : List Fix}
    (ordered : fix.span.start ≤ fix.span.stop)
    (behind : ∀ other ∈ rest, fix.span.stop ≤ other.span.start) :
    (List.range' (placeOf text fix) (text.length + 1 - placeOf text fix)).flatMap
        (bytesAt text (fix :: rest)) =
      fix.text ++ (List.range' (min fix.span.stop text.length)
        (text.length + 1 - min fix.span.stop text.length)).flatMap (bytesAt text rest) := by
  have placeLe : placeOf text fix ≤ min fix.span.stop text.length := by
    unfold placeOf
    omega
  have count : text.length + 1 - placeOf text fix = (text.length - placeOf text fix) + 1 := by
    unfold placeOf
    omega
  have restBehind (other : Fix) (isIn : other ∈ rest) :
      min fix.span.stop text.length ≤ placeOf text other := by
    have := behind other isIn
    unfold placeOf
    omega
  have restNone (i : ℕ) (inside : i < min fix.span.stop text.length) : textsAt text rest i = [] := by
    refine textsAt_nil ?_
    intro other isIn
    have := restBehind other isIn
    omega
  have atPlace : bytesAt text (fix :: rest) (placeOf text fix) = fix.text ++
      if placeOf text fix < min fix.span.stop text.length then []
      else bytesAt text rest (placeOf text fix) := by
    unfold bytesAt
    rw [textsAt_cons, if_pos rfl, List.append_assoc, keptByte_cons]
    congr 1
    by_cases covers : placeOf text fix < min fix.span.stop text.length
    · rw [if_pos covers, restNone _ covers, if_pos]
      · rfl
      · unfold placeOf at covers ⊢
        omega
    · rw [if_neg covers]
      by_cases isEnd : text.length ≤ placeOf text fix
      · rw [keptByte_end rest isEnd]
        split
        · rfl
        · rfl
      · rw [if_neg (by omega)]
  have afterPlace (i : ℕ) (after : placeOf text fix < i) :
      bytesAt text (fix :: rest) i =
        if i < min fix.span.stop text.length then [] else bytesAt text rest i := by
    unfold bytesAt
    rw [textsAt_cons, if_neg (by omega), List.nil_append, keptByte_cons]
    by_cases covers : i < min fix.span.stop text.length
    · rw [if_pos covers, restNone _ covers, if_pos]
      · rfl
      · unfold placeOf at after
        omega
    · rw [if_neg covers]
      by_cases isEnd : text.length ≤ i
      · rw [keptByte_end rest isEnd]
        split
        · rfl
        · rfl
      · rw [if_neg (by omega)]
  rw [count, List.range'_succ, List.flatMap_cons, atPlace, List.append_assoc]
  congr 1
  by_cases covers : placeOf text fix < min fix.span.stop text.length
  · rw [if_pos covers, List.nil_append]
    have split : text.length - placeOf text fix =
        (min fix.span.stop text.length - (placeOf text fix + 1)) +
          (text.length + 1 - min fix.span.stop text.length) := by omega
    have meets : placeOf text fix + 1 + (min fix.span.stop text.length - (placeOf text fix + 1)) =
        min fix.span.stop text.length := by omega
    rw [split, ← List.range'_append_1, List.flatMap_append, meets]
    have nothing : (List.range' (placeOf text fix + 1)
        (min fix.span.stop text.length - (placeOf text fix + 1))).flatMap
          (bytesAt text (fix :: rest)) = [] := by
      rw [List.flatMap_eq_nil_iff]
      intro i isIn
      rw [List.mem_range'_1] at isIn
      rw [afterPlace i (by omega), if_pos (by omega)]
    rw [nothing, List.nil_append]
    refine List.flatMap_congr ?_
    intro i isIn
    rw [List.mem_range'_1] at isIn
    rw [afterPlace i (by omega), if_neg (by omega)]
  · have same : min fix.span.stop text.length = placeOf text fix := by omega
    rw [if_neg covers, same, count, List.range'_succ, List.flatMap_cons]
    congr 1
    refine List.flatMap_congr ?_
    intro i isIn
    rw [List.mem_range'_1] at isIn
    rw [afterPlace i (by omega), if_neg (by omega)]

/-- Applying fixes at once to what is left of a text is substituting them piece by piece. -/
theorem flatMap_eq_pieces {text : List UInt8} {fixes : List Fix} {place : ℕ}
    (laid : Laid place fixes) :
    (List.range' (min place text.length) (text.length + 1 - min place text.length)).flatMap
      (bytesAt text fixes) = pieces text place fixes := by
  induction fixes generalizing place with
  | nil =>
      have bytes : bytesAt text [] = fun i => (text[i]?).toList := by
        funext i
        rfl
      rw [bytes, flatMap_bytes, List.take_of_length_le (by omega), pieces]
      by_cases inside : place ≤ text.length
      · rw [Nat.min_eq_left inside]
      · rw [Nat.min_eq_right (by omega), List.drop_length, List.drop_eq_nil_of_le (by omega)]
  | cons fix rest ih =>
      have inside := laid.mem
      obtain ⟨behind, ordered, later⟩ := laid
      have parts : text.length + 1 - min place text.length =
          (placeOf text fix - min place text.length) + (text.length + 1 - placeOf text fix) := by
        unfold placeOf
        omega
      have meets : min place text.length + (placeOf text fix - min place text.length) =
          placeOf text fix := by
        unfold placeOf
        omega
      have between : (List.range' (min place text.length)
          (placeOf text fix - min place text.length)).flatMap (bytesAt text (fix :: rest)) =
          (text.take fix.span.start).drop place := by
        have bytes : (List.range' (min place text.length)
            (placeOf text fix - min place text.length)).flatMap (bytesAt text (fix :: rest)) =
            (List.range' (min place text.length)
              (placeOf text fix - min place text.length)).flatMap
                (fun i => (text[i]?).toList) := by
          refine List.flatMap_congr ?_
          intro i isIn
          rw [List.mem_range'_1] at isIn
          have before (other : Fix) (isOther : other ∈ fix :: rest) :
              i < placeOf text other ∧ i < other.span.start := by
            rcases List.mem_cons.mp isOther with rfl | isLater
            · unfold placeOf at isIn ⊢
              omega
            · have := (later.mem other isLater).1
              unfold placeOf at isIn ⊢
              omega
          unfold bytesAt
          rw [textsAt_nil (fun other isOther => (before other isOther).1),
            keptByte_before (fun other isOther => (before other isOther).2)]
          rfl
        rw [bytes, flatMap_bytes, meets]
        have sameTake : text.take (placeOf text fix) = text.take fix.span.start := by
          rw [List.take_eq_take_iff]
          unfold placeOf
          omega
        rw [sameTake]
        by_cases inText : place ≤ text.length
        · rw [Nat.min_eq_left inText]
        · have isEnd : (text.take fix.span.start).length ≤ min place text.length := by
            rw [List.length_take]
            omega
          rw [List.drop_eq_nil_of_le isEnd, List.drop_eq_nil_of_le (by omega)]
      rw [parts, ← List.range'_append_1, List.flatMap_append, between, meets,
        flatMap_fix ordered (fun other isIn => (later.mem other isIn).1), ih later]
      rfl

theorem substitute_eq_pieces {text : List UInt8} {fixes : List Fix} (laid : Laid 0 fixes) :
    substitute text fixes = pieces text 0 fixes := by
  have same := @flatMap_eq_pieces text _ _ laid
  rw [Nat.zero_min, Nat.sub_zero] at same
  exact same

/-! ### The fixes that are applied -/

/-- The fixes that the loop applies behind the end of the last one. -/
def chosenFrom : ℤ → List Fix → List Fix
  | _, [] => []
  | last, fix :: rest =>
      if last ≥ fix.span.start ∨ fix.span.start > fix.span.stop then chosenFrom last rest
      else fix :: chosenFrom fix.span.stop rest

/-- A choice of fixes that no two of touch.  Every other fix that could be applied touches one
of them that does not come after it. -/
structure GreedyChoice (fixes chosen : List Fix) : Prop where
  isSublist : chosen.Sublist (sortFixes fixes)
  ordered : ∀ fix ∈ chosen, fix.span.start ≤ fix.span.stop
  apart : chosen.Pairwise fun a b => ¬ Touch a b
  maximal : ∀ fix ∈ fixes, fix.span.start ≤ fix.span.stop →
    ∃ other ∈ chosen, Touch other fix ∧ KeyLE other fix

theorem chosenFrom_sublist (last : ℤ) (fixes : List Fix) :
    (chosenFrom last fixes).Sublist fixes := by
  induction fixes generalizing last with
  | nil => exact List.Sublist.refl _
  | cons fix rest ih =>
      unfold chosenFrom
      split
      · exact (ih last).cons fix
      · exact (ih fix.span.stop).cons_cons fix

theorem chosenFrom_laid {last : ℤ} {place : ℕ} (isPlace : (place : ℤ) ≤ last + 1)
    (fixes : List Fix) :
    Laid place (chosenFrom last fixes) ∧ (∀ fix ∈ chosenFrom last fixes, last < fix.span.start) ∧
      (chosenFrom last fixes).Pairwise fun a b => ¬ Touch a b := by
  induction fixes generalizing last place with
  | nil => exact ⟨trivial, fun fix isIn => (nomatch isIn), List.Pairwise.nil⟩
  | cons fix rest ih =>
      unfold chosenFrom
      split
      · exact ih isPlace
      · obtain ⟨laid, behind, apart⟩ := @ih fix.span.stop fix.span.stop (by omega)
        refine ⟨⟨by omega, by omega, laid⟩, ?_, List.pairwise_cons.mpr ⟨?_, apart⟩⟩
        · intro other isIn
          rcases List.mem_cons.mp isIn with rfl | isLater
          · omega
          · have := behind other isLater
            omega
        · intro other isIn touches
          have := behind other isIn
          have := touches.2
          omega

theorem KeyLE.refl (fix : Fix) : KeyLE fix fix :=
  Or.inr ⟨rfl, Nat.le_refl _⟩

theorem KeyLE.start_le {a b : Fix} (le : KeyLE a b) : a.span.start ≤ b.span.start := by
  unfold KeyLE at le
  omega

theorem sortFixes_pairwise (fixes : List Fix) : (sortFixes fixes).Pairwise KeyLE := by
  have total : Std.Total KeyLE := ⟨fun a b => by unfold KeyLE; omega⟩
  have trans : IsTrans Fix KeyLE := ⟨fun a b c => by unfold KeyLE; omega⟩
  exact List.pairwise_insertionSort KeyLE fixes

theorem sortFixes_perm (fixes : List Fix) : (sortFixes fixes).Perm fixes :=
  List.perm_insertionSort KeyLE fixes

/-- A fix that could be applied is left out only if the last one or another chosen one in
front of it touches it. -/
theorem chosenFrom_maximal (last : ℤ) {fixes : List Fix} (sorted : fixes.Pairwise KeyLE) :
    ∀ fix ∈ fixes, fix.span.start ≤ fix.span.stop →
      last ≥ fix.span.start ∨
        ∃ other ∈ chosenFrom last fixes, Touch other fix ∧ KeyLE other fix := by
  induction fixes generalizing last with
  | nil => exact fun fix isIn => nomatch isIn
  | cons first rest ih =>
      have ⟨firstLeast, restSorted⟩ := List.pairwise_cons.mp sorted
      intro fix isIn ordered
      unfold chosenFrom
      split
      · rename_i leftOut
        rcases List.mem_cons.mp isIn with rfl | isLater
        · exact Or.inl (by omega)
        · exact ih last restSorted fix isLater ordered
      · rename_i isChosen
        rcases List.mem_cons.mp isIn with rfl | isLater
        · exact Or.inr ⟨fix, List.mem_cons_self, ⟨ordered, ordered⟩, KeyLE.refl fix⟩
        · rcases ih first.span.stop restSorted fix isLater ordered with touches | ⟨other, isOther, both⟩
          · have le := firstLeast fix isLater
            have := le.start_le
            exact Or.inr ⟨first, List.mem_cons_self, ⟨by omega, by omega⟩, le⟩
          · exact Or.inr ⟨other, List.mem_cons_of_mem _ isOther, both⟩

theorem chosen_greedy (fixes : List Fix) :
    GreedyChoice fixes (chosenFrom (-1) (sortFixes fixes)) := by
  have ⟨laid, _, apart⟩ := @chosenFrom_laid (-1) 0 (by omega) (sortFixes fixes)
  refine ⟨chosenFrom_sublist _ _, fun fix isIn => (laid.mem fix isIn).2, apart, ?_⟩
  intro fix isIn ordered
  have inSorted := (sortFixes_perm fixes).mem_iff.mpr isIn
  rcases chosenFrom_maximal (-1) (sortFixes_pairwise fixes) fix inSorted ordered with
    touches | isTouched
  · omega
  · exact isTouched

theorem applyFrom_eq (text : List UInt8) {last : ℤ} {place : ℕ} (isPlace : (place : ℤ) ≤ last + 1)
    (fixes : List Fix) (out : List UInt8) (applied : Bool) :
    applyFrom text fixes last (min place text.length) out applied =
      (out ++ pieces text place (chosenFrom last fixes),
        applied || !(chosenFrom last fixes).isEmpty) := by
  have dropMin (list : List UInt8) (short : list.length ≤ text.length) (other : ℕ) :
      list.drop (min (min other text.length) list.length) = list.drop other := by
    by_cases inside : other ≤ list.length
    · rw [Nat.min_eq_left (by omega : other ≤ text.length), Nat.min_eq_left inside]
    · rw [List.drop_eq_nil_of_le (by omega), List.drop_eq_nil_of_le (by omega)]
  induction fixes generalizing last place out applied with
  | nil =>
      have dropped := dropMin text (Nat.le_refl _) place
      rw [Nat.min_assoc, Nat.min_self] at dropped
      unfold applyFrom chosenFrom
      rw [dropped, List.isEmpty_nil, Bool.not_true, Bool.or_false]
      rfl
  | cons fix rest ih =>
      unfold applyFrom chosenFrom
      by_cases leftOut : last ≥ fix.span.start ∨ fix.span.start > fix.span.stop
      · rw [if_pos leftOut, if_pos leftOut]
        exact ih isPlace out applied
      · rw [if_neg leftOut, if_neg leftOut]
        dsimp only
        rw [ih (by omega)]
        have sameTake : text.take (min fix.span.start text.length) = text.take fix.span.start := by
          rw [List.take_eq_take_iff]
          omega
        have dropped := dropMin (text.take fix.span.start) (List.length_take_le' _ _) place
        rw [List.length_take] at dropped
        rw [sameTake, dropped, List.append_assoc, List.append_assoc, List.isEmpty_cons,
          Bool.not_false, Bool.or_true, Bool.true_or]
        rfl

theorem applyFixes_eq (text : List UInt8) (fixes : List Fix) :
    applyFixes text fixes =
      if chosenFrom (-1) (sortFixes fixes) = [] then none
      else some (substitute text (chosenFrom (-1) (sortFixes fixes))) := by
  have ⟨laid, _, _⟩ := @chosenFrom_laid (-1) 0 (by omega) (sortFixes fixes)
  have loop := @applyFrom_eq text (-1) 0 (by omega) (sortFixes fixes) [] false
  rw [Nat.zero_min] at loop
  unfold applyFixes
  rw [loop, substitute_eq_pieces laid, List.nil_append, Bool.false_or]
  by_cases isEmpty : chosenFrom (-1) (sortFixes fixes) = []
  · rw [if_pos isEmpty, isEmpty]
    rfl
  · rw [if_neg isEmpty]
    simp [isEmpty]

/-! ### The merged fix -/

theorem laid_iff {place : ℕ} {fixes : List Fix} (sorted : fixes.Pairwise KeyLE)
    (ordered : ∀ fix ∈ fixes, fix.span.start ≤ fix.span.stop) :
    Laid place fixes ↔
      (∀ fix ∈ fixes, place ≤ fix.span.start) ∧ fixes.Pairwise fun a b => ¬ Overlap a b := by
  induction fixes generalizing place with
  | nil => exact ⟨fun _ => ⟨fun fix isIn => (nomatch isIn), List.Pairwise.nil⟩, fun _ => trivial⟩
  | cons first rest ih =>
      have ⟨firstLeast, restSorted⟩ := List.pairwise_cons.mp sorted
      have firstOrdered := ordered first List.mem_cons_self
      have restOrdered := fun fix isIn => ordered fix (List.mem_cons_of_mem first isIn)
      unfold Laid
      rw [ih restSorted restOrdered, List.forall_mem_cons, List.pairwise_cons]
      constructor
      · rintro ⟨behind, _, restBehind, apart⟩
        refine ⟨⟨behind, ?_⟩, ?_, apart⟩
        · intro fix isIn
          have := restBehind fix isIn
          omega
        · intro fix isIn overlaps
          have := restBehind fix isIn
          have := overlaps.2
          omega
      · rintro ⟨⟨behind, _⟩, firstApart, apart⟩
        refine ⟨behind, firstOrdered, ?_, apart⟩
        intro fix isIn
        have notOverlap := firstApart fix isIn
        have le := firstLeast fix isIn
        have := restOrdered fix isIn
        unfold Overlap at notOverlap
        unfold KeyLE at le
        omega

/-- The merge goes through if the spans stand one behind another, and copies what is between
them. -/
theorem mergeFrom_spec {file : List UInt8} {place : ℕ} {fixes : List Fix}
    (inFile : ∀ fix ∈ fixes, fix.span.start ≤ fix.span.stop ∧ fix.span.start ≤ file.length)
    (text : List UInt8) :
    (Laid place fixes → ∃ middle stop, mergeFrom file fixes place text = some (text ++ middle, stop) ∧
      pieces file place fixes = middle ++ file.drop stop ∧
      stop = (fixes.getLast?.map (·.span.stop)).getD place) ∧
    (¬ Laid place fixes → mergeFrom file fixes place text = none) := by
  induction fixes generalizing place text with
  | nil => exact ⟨fun _ => ⟨[], place, by rw [List.append_nil]; rfl, rfl, rfl⟩,
      fun notLaid => absurd trivial notLaid⟩
  | cons fix rest ih =>
      have ⟨ordered, inside⟩ := inFile fix List.mem_cons_self
      have ⟨goesOn, stops⟩ := @ih fix.span.stop
        (fun other isIn => inFile other (List.mem_cons_of_mem fix isIn))
        (text ++ (slice file (Span.before place fix.span) ++ fix.text))
      unfold mergeFrom
      constructor
      · rintro ⟨behind, _, laid⟩
        obtain ⟨middle, stop, isMerged, isPieces, isStop⟩ := goesOn laid
        have between : slice file (Span.before place fix.span) =
            (file.take fix.span.start).drop place := by
          have isMax : max fix.span.start place = fix.span.start := Nat.max_eq_left behind
          unfold slice Span.before
          dsimp only
          rw [isMax, if_pos inside]
        rw [if_neg (by omega)]
        refine ⟨(file.take fix.span.start).drop place ++ (fix.text ++ middle), stop, ?_, ?_, ?_⟩
        · rw [isMerged, between]
          simp only [List.append_assoc]
        · rw [pieces, isPieces]
          simp only [List.append_assoc]
        · rw [isStop, List.getLast?_cons]
          cases rest.getLast? with
          | none => rfl
          | some last => rfl
      · intro notLaid
        by_cases behind : fix.span.start < place
        · rw [if_pos behind]
        · rw [if_neg behind]
          exact stops (fun laid => notLaid ⟨by omega, ordered, laid⟩)

theorem applyFixes_single (text : List UInt8) {fix : Fix} (ordered : fix.span.start ≤ fix.span.stop) :
    applyFixes text [fix] =
      some (text.take fix.span.start ++ (fix.text ++ text.drop fix.span.stop)) := by
  have isChosen : chosenFrom (-1) (sortFixes [fix]) = [fix] := by
    change chosenFrom (-1) [fix] = [fix]
    unfold chosenFrom
    rw [if_neg (by omega)]
    rfl
  have laid : Laid 0 [fix] := ⟨Nat.zero_le _, ordered, trivial⟩
  rw [applyFixes_eq, isChosen, if_neg (List.cons_ne_nil _ _), substitute_eq_pieces laid]
  rfl

theorem overlap_symm {a b : Fix} (notOverlap : ¬ Overlap a b) : ¬ Overlap b a :=
  fun overlaps => notOverlap ⟨overlaps.2, overlaps.1⟩

theorem intoFix_spec {file : List UInt8} {fixes : List Fix} (notEmpty : fixes ≠ [])
    (inFile : ∀ fix ∈ fixes, fix.span.start ≤ fix.span.stop ∧ fix.span.start ≤ file.length) :
    (intoFix file fixes = none ↔ ¬ fixes.Pairwise fun a b => ¬ Overlap a b) ∧
    ∀ merged, intoFix file fixes = some merged →
      applyFixes file [merged] = some (substitute file (sortFixes fixes)) := by
  have perm := sortFixes_perm fixes
  have sortedInFile := fun fix isIn => inFile fix (perm.mem_iff.mp isIn)
  have pairs : (sortFixes fixes).Pairwise (fun a b => ¬ Overlap a b) ↔
      fixes.Pairwise fun a b => ¬ Overlap a b := perm.pairwise_iff overlap_symm
  have laidIff (place : ℕ) := @laid_iff place _ (sortFixes_pairwise fixes)
    (fun fix isIn => (sortedInFile fix isIn).1)
  by_cases single : fixes.length ≤ 1
  · obtain ⟨fix, rfl⟩ := List.length_eq_one_iff.mp
      (by have := List.length_pos_iff.mpr notEmpty; omega : fixes.length = 1)
    have ordered := (inFile fix List.mem_cons_self).1
    have isFix : intoFix file [fix] = some fix := rfl
    rw [isFix]
    constructor
    · exact ⟨fun same => (nomatch same), fun overlaps => absurd (List.pairwise_singleton _ _) overlaps⟩
    · intro merged same
      obtain rfl := Option.some.inj same
      have laid : Laid 0 [fix] := ⟨Nat.zero_le _, ordered, trivial⟩
      rw [applyFixes_single file ordered]
      change _ = some (substitute file [fix])
      rw [substitute_eq_pieces laid]
      rfl
  · unfold intoFix
    rw [if_neg single]
    cases isSorted : sortFixes fixes with
    | nil =>
        rw [isSorted] at perm
        exact absurd perm.nil_eq.symm notEmpty
    | cons first rest =>
        rw [isSorted] at sortedInFile laidIff pairs
        have ⟨merges, fails⟩ := @mergeFrom_spec _ first.span.start _ sortedInFile []
        have firstLeast (fix : Fix) (isIn : fix ∈ first :: rest) :
            first.span.start ≤ fix.span.start := by
          have sorted := sortFixes_pairwise fixes
          rw [isSorted] at sorted
          rcases List.mem_cons.mp isIn with rfl | isLater
          · exact Nat.le_refl _
          · exact ((List.pairwise_cons.mp sorted).1 fix isLater).start_le
        have isLast : (first :: rest).getLast? = some ((first :: rest).getLast (List.cons_ne_nil _ _)) :=
          List.getLast?_eq_some_getLast _
        dsimp only
        rw [isLast, List.head?_cons, Option.bind_eq_bind, Option.bind_some, Option.bind_eq_bind,
          Option.bind_some]
        by_cases laid : Laid first.span.start (first :: rest)
        · have apart := ((laidIff first.span.start).mp laid).2
          obtain ⟨middle, stop, isMerged, isPieces, isStop⟩ := merges laid
          rw [isMerged]
          constructor
          · exact ⟨fun same => (nomatch same), fun overlaps => absurd (pairs.mp apart) overlaps⟩
          · intro merged same
            obtain rfl := Option.some.inj same
            rw [isLast, Option.map_some, Option.getD_some] at isStop
            have laidFromStart := (laidIff 0).mpr ⟨fun _ _ => Nat.zero_le _, apart⟩
            have ordered := sortedInFile first List.mem_cons_self
            have lastBehind : first.span.start ≤ stop := by
              rw [isStop]
              have inList := List.getLast_mem (List.cons_ne_nil first rest)
              have := (sortedInFile _ inList).1
              have := firstLeast _ inList
              omega
            have atStop : max ((first :: rest).getLast (List.cons_ne_nil _ _)).span.stop stop = stop := by
              rw [← isStop, Nat.max_self]
            rw [applyFixes_single file (by dsimp only; omega), substitute_eq_pieces laidFromStart]
            dsimp only
            rw [atStop, List.nil_append, ← isPieces]
            have fromFirst : (file.take first.span.start).drop first.span.start = [] :=
              List.drop_eq_nil_of_le (List.length_take_le _ _)
            rw [pieces, pieces, fromFirst, List.nil_append, List.drop_zero]
        · have overlaps : ¬ (first :: rest).Pairwise fun a b => ¬ Overlap a b :=
            fun apart => laid ((laidIff first.span.start).mpr ⟨firstLeast, apart⟩)
          rw [fails laid]
          constructor
          · exact ⟨fun _ apart => overlaps (pairs.mpr apart), fun _ => rfl⟩
          · exact fun merged same => nomatch same

/-! ### Applying and merging -/

/-- A greedy choice of fixes is applied, all at once; and fixes whose spans are ranges that
start in the file are merged exactly if no two overlap, into one that does what they do. -/
theorem fixes_applied :
    (∀ (text : List UInt8) (fixes : List Fix), ∃ chosen, GreedyChoice fixes chosen ∧
      applyFixes text fixes = if chosen = [] then none else some (substitute text chosen)) ∧
    (∀ file, intoFix file [] = none) ∧
    ∀ (file : List UInt8) (fixes : List Fix), fixes ≠ [] →
      (∀ fix ∈ fixes, fix.span.start ≤ fix.span.stop ∧ fix.span.start ≤ file.length) →
      (intoFix file fixes = none ↔ ¬ fixes.Pairwise fun a b => ¬ Overlap a b) ∧
      ∀ merged, intoFix file fixes = some merged →
        applyFixes file [merged] = some (substitute file (sortFixes fixes)) :=
  ⟨fun text fixes => ⟨_, chosen_greedy fixes, applyFixes_eq text fixes⟩, fun _ => rfl,
    fun _ _ notEmpty inFile => intoFix_spec notEmpty inFile⟩

/-- Without fixes nothing is merged; a gap that ends behind the file is not copied; and a span
that ends before it starts is copied over. -/
theorem intoFix_notMerged :
    (intoFix [0x61] [] = none ∧ ([] : List Fix).Pairwise fun a b => ¬ Overlap a b) ∧
    ((intoFix [0x61, 0x62] [⟨⟨0, 0⟩, [0x78]⟩, ⟨⟨3, 3⟩, [0x79]⟩]).bind
        (fun merged => applyFixes [0x61, 0x62] [merged]) = some [0x78, 0x79] ∧
      substitute [0x61, 0x62] (sortFixes [⟨⟨0, 0⟩, [0x78]⟩, ⟨⟨3, 3⟩, [0x79]⟩]) =
        [0x78, 0x61, 0x62, 0x79]) ∧
    ((intoFix [0x61, 0x62] [⟨⟨1, 0⟩, [0x78]⟩, ⟨⟨2, 2⟩, [0x79]⟩]).bind
        (fun merged => applyFixes [0x61, 0x62] [merged]) =
          some [0x61, 0x78, 0x61, 0x62, 0x79] ∧
      substitute [0x61, 0x62] (sortFixes [⟨⟨1, 0⟩, [0x78]⟩, ⟨⟨2, 2⟩, [0x79]⟩]) =
        [0x61, 0x78, 0x62, 0x79]) := by
  refine ⟨⟨rfl, List.Pairwise.nil⟩, ⟨by decide +kernel, by decide +kernel⟩, by decide +kernel,
    by decide +kernel⟩

theorem fixes_applied_insertion :
    (intoFix [0x61] [⟨⟨0, 1⟩, [0x62]⟩, ⟨⟨0, 0⟩, [0x63]⟩] = none ↔
      ¬ [(⟨⟨0, 1⟩, [0x62]⟩ : Fix), ⟨⟨0, 0⟩, [0x63]⟩].Pairwise fun a b => ¬ Overlap a b) ∧
    ∀ merged, intoFix [0x61] [⟨⟨0, 1⟩, [0x62]⟩, ⟨⟨0, 0⟩, [0x63]⟩] = some merged →
      applyFixes [0x61] [merged] =
        some (substitute [0x61] (sortFixes [⟨⟨0, 1⟩, [0x62]⟩, ⟨⟨0, 0⟩, [0x63]⟩])) :=
  fixes_applied.2.2 [0x61] [⟨⟨0, 1⟩, [0x62]⟩, ⟨⟨0, 0⟩, [0x63]⟩] (List.cons_ne_nil _ _) (by decide)

end Bun.Lint
