/-
The lookups of the internal format agree with those of the flat mapping list.

Both search the longest prefix of mappings at or before the query and take its
last member: the flat list by one bisection, the blob by a bisection over the sync
entries and a scan of one window.
-/

import Mathlib.Data.List.TakeWhile
import Bun.Foundation.Bisection
import Bun.SourceMap.InternalRoundTrip

set_option autoImplicit false

namespace Bun.SourceMap

open Bun.Foundation

/-! ### The flat list -/

theorem atOrBefore_iff (offset : LineColumnOffset) (line column : Int32) :
    offset.atOrBefore line column = true ↔
      offset.lines.toInt < line.toInt ∨
        (offset.lines.toInt = line.toInt ∧ offset.columns.toInt ≤ column.toInt) := by
  unfold LineColumnOffset.atOrBefore
  rw [Bool.or_eq_true, Bool.and_eq_true, decide_eq_true_eq, decide_eq_true_eq, decide_eq_true_eq,
    Int32.lt_iff_toInt_lt, Int32.le_iff_toInt_le, Int32.toInt_inj]

theorem atOrBefore_trans {first second : LineColumnOffset} {line column : Int32}
    (ordered : first.atOrBefore second.lines second.columns = true)
    (within : second.atOrBefore line column = true) : first.atOrBefore line column = true := by
  rw [atOrBefore_iff] at ordered within ⊢
  omega

def SortedByGenerated (offsets : List LineColumnOffset) : Prop :=
  offsets.Pairwise fun earlier later => earlier.atOrBefore later.lines later.columns = true

instance (offsets : List LineColumnOffset) : Decidable (SortedByGenerated offsets) :=
  inferInstanceAs (Decidable (offsets.Pairwise _))

theorem SortedByGenerated.down {offsets : List LineColumnOffset}
    (sorted : SortedByGenerated offsets) (line column : Int32) :
    offsets.Pairwise fun earlier later =>
      later.atOrBefore line column = true → earlier.atOrBefore line column = true :=
  sorted.imp fun ordered within => atOrBefore_trans ordered within

theorem searchGenerated_eq_bisect (offsets : List LineColumnOffset) (line column : Int32)
    (index count : Nat) (inside : index + count ≤ offsets.length) :
    searchGenerated offsets line column index count =
      bisect (fun position => (offsets[position]?).any (·.atOrBefore line column)) index
        (index + count) := by
  induction count using Nat.strongRecOn generalizing index with
  | ind count ih =>
      rw [searchGenerated, bisect]
      by_cases more : 0 < count
      · have middleInside : index + count / 2 < offsets.length := by omega
        have middleEq : index + (index + count - index) / 2 = index + count / 2 := by
          rw [Nat.add_sub_cancel_left]
        rw [if_pos more, if_pos (by omega)]
        dsimp only
        rw [middleEq, List.getElem?_eq_getElem middleInside, Option.any_some]
        dsimp only
        cases within : offsets[index + count / 2].atOrBefore line column with
        | true =>
            rw [if_pos rfl, if_pos rfl, ih _ (by omega) _ (by omega)]
            congr 1
            omega
        | false =>
            rw [if_neg (by simp), if_neg (by simp)]
            exact ih _ (by omega) _ (by omega)
      · rw [if_neg more, if_neg (by omega)]

theorem ListValue.generated_eq (list : ListValue) :
    list.generated = list.toMappings.map Mapping.generated := by
  cases list with
  | withoutNames rows =>
      rw [ListValue.generated, ListValue.toMappings, List.map_map]
      rfl
  | withNames rows => rfl

theorem ListValue.get?_eq (list : ListValue) (index : Nat) :
    list.get? index = list.toMappings[index]? := by
  cases list with
  | withoutNames rows => rw [ListValue.get?, ListValue.toMappings, List.getElem?_map]
  | withNames rows => rfl

def prefixBefore (mappings : List Mapping) (line column : Int32) : List Mapping :=
  mappings.takeWhile fun mapping => mapping.generated.atOrBefore line column

theorem prefixBefore_isPrefix (mappings : List Mapping) (line column : Int32) :
    prefixBefore mappings line column <+: mappings := List.takeWhile_prefix _

theorem searchGenerated_eq_prefix_length (list : ListValue) (line column : Int32)
    (sorted : SortedByGenerated list.generated) :
    searchGenerated list.generated line column 0 list.generated.length =
      (prefixBefore list.toMappings line column).length := by
  rw [searchGenerated_eq_bisect _ _ _ _ _ (by omega), Nat.zero_add,
    bisect_eq_takeWhile_length list.generated (·.atOrBefore line column) (sorted.down line column),
    list.generated_eq, List.takeWhile_map, List.length_map]
  rfl

theorem getElem?_prefix_last {α : Type} {items taken : List α} (isPrefix : taken <+: items) :
    taken.getLast? = if taken.length = 0 then none else items[taken.length - 1]? := by
  obtain ⟨rest, rfl⟩ := isPrefix
  rw [List.getLast?_eq_getElem?]
  split
  · rename_i empty
    rw [List.length_eq_zero_iff.mp empty]
    rfl
  · rw [List.getElem?_append_left (by omega)]

theorem ListValue.findClosest_eq (list : ListValue) (line column : Int32)
    (sorted : SortedByGenerated list.generated) :
    list.findClosest line column = (prefixBefore list.toMappings line column).getLast? := by
  unfold ListValue.findClosest findClosestIndex
  rw [searchGenerated_eq_prefix_length list line column sorted,
    getElem?_prefix_last (prefixBefore_isPrefix list.toMappings line column)]
  dsimp only
  split
  · rfl
  · rw [Option.bind_some, list.get?_eq]

theorem ListValue.find_eq (list : ListValue) (line column : Int32)
    (sorted : SortedByGenerated list.generated) :
    list.find line column =
      ((prefixBefore list.toMappings line column).getLast?).filter
        fun mapping => mapping.generated.lines = line := by
  unfold ListValue.find findIndexFromGenerated
  rw [searchGenerated_eq_prefix_length list line column sorted,
    getElem?_prefix_last (prefixBefore_isPrefix list.toMappings line column)]
  dsimp only
  by_cases empty : (prefixBefore list.toMappings line column).length = 0
  · rw [if_neg (by omega), if_pos empty]
    rfl
  · rw [if_pos (by omega), if_neg empty, list.generated_eq, List.getElem?_map]
    cases found : list.toMappings[(prefixBefore list.toMappings line column).length - 1]? with
    | none => rfl
    | some mapping =>
        dsimp only [Option.map_some]
        by_cases same : mapping.generated.lines = line
        · rw [if_pos same, Option.bind_some, list.get?_eq, found, Option.filter_some,
            if_pos (by simpa using same)]
        · rw [if_neg same, Option.bind_none, Option.filter_some, if_neg (by simpa using same)]

namespace InternalSourceMap

/-! ### The blob -/

theorem locateLoop_eq_bisect {blob : List UInt8} {windows : List Window}
    (entries : ∀ index window, windows[index]? = some window →
      ∃ entry, syncEntry blob index = .ok entry ∧ entry.toState = window.first)
    (line column : Int32) (lo hi : Nat) (inside : hi ≤ windows.length) :
    locateLoop blob line column lo hi =
      .ok (bisect (fun index => (windows[index]?).any
        fun window => window.first.lessOrEqual line column) lo hi) := by
  induction size : hi - lo using Nat.strongRecOn generalizing lo hi with
  | ind distance ih =>
      rw [locateLoop, bisect]
      by_cases more : lo < hi
      · have midInside : lo + (hi - lo) / 2 < windows.length := by omega
        have found := List.getElem?_eq_getElem midInside
        obtain ⟨entry, entryRead, entryState⟩ := entries _ _ found
        have sameOrder : entry.lessOrEqual line column =
            windows[lo + (hi - lo) / 2].first.lessOrEqual line column := by
          rw [← entryState]
          rfl
        rw [if_pos more, if_pos more]
        dsimp only
        rw [entryRead, found, Option.any_some]
        dsimp only
        rw [sameOrder]
        cases within : windows[lo + (hi - lo) / 2].first.lessOrEqual line column with
        | true =>
            rw [if_pos rfl, if_pos rfl]
            exact ih _ (by omega) _ _ inside rfl
        | false =>
            rw [if_neg (by simp), if_neg (by simp)]
            exact ih _ (by omega) _ _ (by omega) rfl
      · rw [if_neg more, if_neg more]

/-- The order of a list of mappings passes to the first mappings of its windows. -/
theorem firsts_down {windows : List Window} {line column : Int32}
    (down : (windows.flatMap Window.states).Pairwise fun earlier later =>
      later.lessOrEqual line column = true → earlier.lessOrEqual line column = true) :
    windows.Pairwise fun earlier later =>
      later.first.lessOrEqual line column = true → earlier.first.lessOrEqual line column = true := by
  rw [List.pairwise_flatMap] at down
  refine down.2.imp ?_
  intro earlier later ordered
  exact ordered earlier.first List.mem_cons_self later.first List.mem_cons_self

/-- The window that holds the last mapping at or before the query, with what it
leaves of the whole list. -/
theorem locateWindow_stored {blob : List UInt8} {windows : List Window}
    (stored : Stored blob windows) (line column : Int32)
    (down : (windows.flatMap Window.states).Pairwise fun earlier later =>
      later.lessOrEqual line column = true → earlier.lessOrEqual line column = true) :
    (locateWindow blob line column = .ok none ∧
      (windows.flatMap Window.states).takeWhile (·.lessOrEqual line column) = []) ∨
    ∃ index window, locateWindow blob line column = .ok (some index) ∧
      windows[index]? = some window ∧
      ∃ front, (windows.flatMap Window.states).takeWhile (·.lessOrEqual line column) =
        front ++ window.first :: window.rest.takeWhile (·.lessOrEqual line column) := by
  have located : locateLoop blob line column 0 windows.length =
      .ok (windows.takeWhile fun window => window.first.lessOrEqual line column).length := by
    rw [locateLoop_eq_bisect stored.entry line column 0 windows.length (Nat.le_refl _),
      bisect_eq_takeWhile_length windows (fun window => window.first.lessOrEqual line column)
        (firsts_down down)]
  have unfolded : locateWindow blob line column =
      .ok (if (windows.takeWhile fun window => window.first.lessOrEqual line column).length = 0
        then none
        else some ((windows.takeWhile fun window =>
          window.first.lessOrEqual line column).length - 1)) := by
    have bounded := (List.takeWhile_prefix (l := windows)
      fun window => window.first.lessOrEqual line column).length_le
    have fits := stored.syncCountFits
    unfold locateWindow
    rw [stored.syncCount]
    simp only [bind, Except.bind, located]
    split
    · rename_i noWindow
      rw [List.length_eq_zero_iff.mp noWindow]
      rfl
    · split
      · rfl
      · rw [if_neg (by omega)]
        rfl
  rw [unfolded]
  have splitAt := List.takeWhile_append_dropWhile
    (p := fun window : Window => window.first.lessOrEqual line column) (l := windows)
  have afterFails : ∀ window, (windows.dropWhile fun window =>
      window.first.lessOrEqual line column).head? = some window →
      window.first.lessOrEqual line column = false := by
    intro window atHead
    have fails := List.head?_dropWhile_not
      (fun window : Window => window.first.lessOrEqual line column) windows
    rw [atHead] at fails
    simpa using fails
  generalize windows.dropWhile (fun window => window.first.lessOrEqual line column) = after at *
  have holdsOnTaken : ∀ window ∈ windows.takeWhile (fun window =>
      window.first.lessOrEqual line column), window.first.lessOrEqual line column = true := by
    intro window member
    exact List.mem_takeWhile_imp (p := fun window : Window => window.first.lessOrEqual line column) member
  generalize windows.takeWhile (fun window => window.first.lessOrEqual line column) = taken at *
  have backFails : ∀ item, (after.flatMap Window.states).head? = some item →
      item.lessOrEqual line column = false := by
    intro item atHead
    cases after with
    | nil => cases atHead
    | cons window after =>
        obtain rfl := Option.some.inj atHead
        exact afterFails window rfl
  rcases List.eq_nil_or_concat taken with rfl | ⟨front, window, rfl⟩
  · left
    refine ⟨rfl, ?_⟩
    rw [← splitAt, List.nil_append]
    cases states : after.flatMap Window.states with
    | nil => rfl
    | cons item rest =>
        rw [List.takeWhile_cons, if_neg (by simp [backFails item (by rw [states]; rfl)])]
  · right
    rw [List.concat_eq_append] at splitAt holdsOnTaken ⊢
    refine ⟨front.length, window, ?_, ?_, front.flatMap Window.states, ?_⟩
    · rw [List.length_append, List.length_singleton, if_neg (by omega), Nat.add_sub_cancel]
    · rw [← splitAt, List.append_assoc, List.getElem?_append_right (Nat.le_refl _), Nat.sub_self]
      rfl
    · have headHolds := holdsOnTaken window (by simp)
      have statesEq : windows.flatMap Window.states =
          front.flatMap Window.states ++
            (window.first :: window.rest ++ after.flatMap Window.states) := by
        rw [← splitAt]
        simp [Window.states]
      have frontHolds : ∀ item ∈ front.flatMap Window.states,
          item.lessOrEqual line column = true := by
        intro item member
        rw [statesEq, List.pairwise_append] at down
        exact down.2.2 item member window.first (by simp) headHolds
      rw [statesEq]
      exact takeWhile_blocks _ _ _ _ _ frontHolds headHolds backFails

theorem getLast?_append_cons {α : Type} (front : List α) (head : α) (rest : List α) :
    (front ++ head :: rest).getLast? = some (rest.getLastD head) := by
  rw [List.getLast?_append_of_ne_nil _ (List.cons_ne_nil _ _), List.getLast?_cons,
    List.getLastD_eq_getLast?]

section Lookups

variable {blob : List UInt8} {states : List State} (stored : Stored blob (windowsOf states))
variable (line column : Int32)
variable (down : states.Pairwise fun earlier later =>
  later.lessOrEqual line column = true → earlier.lessOrEqual line column = true)

include stored down

/-- `find_closest` returns the last mapping at or before the query. -/
theorem findClosest_stored :
    findClosest blob line column =
      .ok (((states.takeWhile (·.lessOrEqual line column)).getLast?).map State.toMapping) := by
  rw [← windowsOf_states states] at down
  have located := locateWindow_stored stored line column down
  rw [windowsOf_states] at located
  unfold findClosest
  rcases located with ⟨noWindow, empty⟩ | ⟨index, window, here, found, front, split⟩
  · rw [noWindow, empty]
    rfl
  · obtain ⟨reader, seeded, reads⟩ := stored.seed index window found
    have scanned := scanWindow_reads line column window.rest reader 0 window.first reads
    rw [here, split, getLast?_append_cons]
    simp only [bind, Except.bind, seeded, scanned.1]
    rfl

/-- `find` returns it when it lies on the query's line. -/
theorem find_stored :
    find blob line column =
      .ok ((((states.takeWhile (·.lessOrEqual line column)).getLast?).filter
        fun state => state.generatedLine = line).map State.toMapping) := by
  rw [← windowsOf_states states] at down
  have located := locateWindow_stored stored line column down
  rw [windowsOf_states] at located
  unfold find
  rcases located with ⟨noWindow, empty⟩ | ⟨index, window, here, found, front, split⟩
  · rw [noWindow, empty]
    rfl
  · obtain ⟨reader, seeded, reads⟩ := stored.seed index window found
    have scanned := scanWindow_reads line column window.rest reader 0 window.first reads
    rw [here, split, getLast?_append_cons]
    simp only [bind, Except.bind, seeded, scanned.1, Option.filter_some]
    generalize (window.rest.takeWhile (·.lessOrEqual line column)).getLastD window.first = best
    by_cases same : best.generatedLine = line
    · rw [if_neg (by simp [same, scanned.2]), if_pos (by simpa using same)]
      rfl
    · rw [if_pos (by simp [same]), if_neg (by simpa using same)]
      rfl

end Lookups

/-! ### The two lookups agree -/

def generatedOf (states : List State) : List LineColumnOffset :=
  states.map fun state => state.toMapping.generated

theorem generatedOf_down {states : List State} (sorted : SortedByGenerated (generatedOf states))
    (line column : Int32) :
    states.Pairwise fun earlier later =>
      later.lessOrEqual line column = true → earlier.lessOrEqual line column = true :=
  List.pairwise_map.mp (sorted.down line column)

/-- On mappings appended in generated order, the lookups of the blob are those of
every flat list of the same mappings, for every query. -/
theorem find_toBlob_run (calls : List BuilderCall)
    (sorted : SortedByGenerated (generatedOf (appended 0 calls)))
    (fits : OffsetsFit (appended 0 calls)) :
    ∃ blob, (Builder.init.run calls).toBlob = .ok blob ∧
      ∀ list : ListValue, list.toMappings = (appended 0 calls).map State.toMapping →
        ∀ line column, find blob line column = .ok (list.find line column) ∧
          findClosest blob line column = .ok (list.findClosest line column) := by
  obtain ⟨blob, finished, stored⟩ := stored_of_calls calls fits
  refine ⟨blob, finished, ?_⟩
  intro list rows line column
  have listSorted : SortedByGenerated list.generated := by
    rw [list.generated_eq, rows, List.map_map]
    exact sorted
  have prefixEq : prefixBefore list.toMappings line column =
      ((appended 0 calls).takeWhile (·.lessOrEqual line column)).map State.toMapping := by
    rw [rows, prefixBefore, List.takeWhile_map]
    rfl
  have down := generatedOf_down sorted line column
  rw [find_stored stored line column down, findClosest_stored stored line column down,
    list.find_eq line column listSorted, list.findClosest_eq line column listSorted, prefixEq,
    List.getLast?_map]
  refine ⟨?_, rfl⟩
  rw [Option.filter_map]
  rfl

/-- Two mappings of one position and one after them, whose lookups agree. -/
theorem find_toBlob_run_three :
    ∃ blob, (Builder.init.run
        [.appendMapping ⟨0, 4, 0, 2, 7⟩, .appendMapping ⟨0, 4, 1, 0, 0⟩, .appendLineSeparator,
          .appendMapping ⟨0, 1, 3, 0, 9⟩]).toBlob = .ok blob ∧
      ∀ list : ListValue,
        list.toMappings =
          [⟨⟨0, 4⟩, ⟨2, 7⟩, 0, -1⟩, ⟨⟨0, 4⟩, ⟨0, 0⟩, 1, -1⟩, ⟨⟨1, 1⟩, ⟨0, 9⟩, 3, -1⟩] →
        ∀ line column, find blob line column = .ok (list.find line column) ∧
          findClosest blob line column = .ok (list.findClosest line column) :=
  find_toBlob_run
    [.appendMapping ⟨0, 4, 0, 2, 7⟩, .appendMapping ⟨0, 4, 1, 0, 0⟩, .appendLineSeparator,
      .appendMapping ⟨0, 1, 3, 0, 9⟩]
    (by decide +kernel) (by decide +kernel)

/-- Past 4 GiB the lookup of a position that every mapping has finds none. -/
theorem find_misses_mapping :
    ∃ blob, (Builder.init.run (zeroCalls 45210184)).toBlob = .ok blob ∧
      SortedByGenerated (generatedOf (appended 0 (zeroCalls 45210184))) ∧
      find blob 0 0 ≠ .ok ((ListValue.withNames
        ((appended 0 (zeroCalls 45210184)).map State.toMapping)).find 0 0) := by
  obtain ⟨blob, finished, layout, outcome, reader, seeded, empty⟩ :=
    zeroCalls_last_window 45210183 (by decide) (by decide)
  have sorted : SortedByGenerated (generatedOf (appended 0 (zeroCalls 45210184))) := by
    rw [zeroCalls, appended_replicate_zero, generatedOf, List.map_replicate]
    exact List.pairwise_replicate.mpr (Or.inr (by decide))
  refine ⟨blob, finished, sorted, ?_⟩
  have entries : ∀ index window, (List.replicate (45210183 + 1) zeroWindow)[index]? = some window →
      ∃ entry, syncEntry blob index = .ok entry ∧ entry.toState = window.first := by
    intro index window found
    obtain ⟨front, back, windowsEq, frontLength, entryAt⟩ := entriesFrom_getElem? found
    exact ⟨_, layout.syncEntry index _ entryAt, Window.entry_toState window _⟩
  have located : locateWindow blob 0 0 = .ok (some 45210183) := by
    have loop := locateLoop_eq_bisect entries 0 0 0 (45210183 + 1) (by rw [List.length_replicate])
    have all := bisect_eq_takeWhile_length (List.replicate (45210183 + 1) zeroWindow)
      (fun window => window.first.lessOrEqual 0 0)
      (List.pairwise_replicate.mpr (Or.inr fun within => within))
    rw [List.length_replicate, List.takeWhile_replicate_eq_filter, List.filter_replicate,
      if_pos (by decide), List.length_replicate] at all
    rw [all] at loop
    unfold locateWindow
    rw [layout.syncCount, entriesFrom_length, List.length_replicate]
    simp only [bind, Except.bind, loop]
    rfl
  have missed : find blob 0 0 = .ok none := by
    unfold find
    rw [located]
    simp only [bind, Except.bind, seeded]
    cases outcome with
    | none => rfl
    | some _ =>
        have atEnd : reader.done = true := by simp [WindowReader.done, empty]
        dsimp only
        rw [scanWindow, dif_neg (by simp [atEnd])]
        dsimp only
        rw [if_pos (Or.inl empty)]
        rfl
  have listed : ((ListValue.withNames
      ((appended 0 (zeroCalls 45210184)).map State.toMapping)).find 0 0).isSome = true := by
    rw [ListValue.find_eq _ _ _ (by
      rw [ListValue.generated_eq, ListValue.toMappings, List.map_map]
      exact sorted)]
    simp only [ListValue.toMappings, prefixBefore]
    rw [zeroCalls, appended_replicate_zero, List.map_replicate, List.takeWhile_replicate_eq_filter,
      List.filter_replicate, if_pos (by decide), List.getLast?_replicate, if_neg (by decide)]
    decide
  intro agree
  rw [missed] at agree
  rw [← Except.ok.inj agree] at listed
  cases listed

end InternalSourceMap

end Bun.SourceMap
