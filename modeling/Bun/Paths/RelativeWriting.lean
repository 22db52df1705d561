/-
Writing a relative path.

There is one `..` for each name that is left of the first path.  What is left of the second
comes behind, with a separator in between, and a separator at the end may be dropped.
-/

import Bun.Paths.CommonNames
import Bun.Paths.RelativePath

set_option autoImplicit false

namespace Bun.Paths

open Bun.Foundation

variable {size : ℕ}

/-! ### The buffer -/

structure Wrote (out : RelativeOutput size) (text : List UInt8) : Prop where
  isText : out.buf.items.take out.outLen = text
  length : out.outLen = text.length

namespace Wrote

variable {out : RelativeOutput size} {text : List UInt8}

theorem nothing (buf : FixedArray UInt8 size) : Wrote ⟨buf, 0⟩ [] :=
  ⟨List.take_zero, rfl⟩

theorem push (wrote : Wrote out text) {source : List UInt8}
    (fits : text.length + source.length ≤ size) :
    ∃ next, out.push source = some next ∧ Wrote next (text ++ source) := by
  rw [← wrote.length] at fits
  obtain ⟨written, isWritten, isFront⟩ := out.buf.copyFromSlice_of_fits out.outLen source fits
  refine ⟨⟨written, out.outLen + source.length⟩, ?_, ?_, ?_⟩
  · unfold RelativeOutput.push
    rw [isWritten]
    rfl
  · rw [isFront, wrote.isText]
  · rw [List.length_append, wrote.length]

theorem last (wrote : Wrote out text) (notEmpty : text ≠ []) :
    out.buf.items[out.outLen - 1]? = text.getLast? := by
  have isPos := List.length_pos_iff.mpr notEmpty
  have length := wrote.length
  rw [List.getLast?_eq_getElem?, ← length, ← wrote.isText, List.getElem?_take_of_lt (by omega)]

end Wrote

/-! ### The `..` elements -/

def dotdots (count : ℕ) : List UInt8 :=
  joined 0x2f (List.replicate count [0x2e, 0x2e])

theorem dotdots_succ (count : ℕ) :
    dotdots (count + 1) =
      dotdots count ++ if count = 0 then [0x2e, 0x2e] else [0x2f, 0x2e, 0x2e] := by
  unfold dotdots
  rw [List.replicate_succ']
  by_cases isZero : count = 0
  · rw [isZero]
    rfl
  · rw [if_neg isZero, joined_concat 0x2f (by
      rw [ne_eq, List.replicate_eq_nil_iff]
      exact isZero)]

theorem length_dotdots (count : ℕ) : (dotdots count).length = 3 * count - 1 := by
  induction count with
  | zero => rfl
  | succ count ih =>
      rw [dotdots_succ, List.length_append, ih]
      split
      · rename_i isZero
        rw [isZero]
        rfl
      · rw [List.length_cons, List.length_cons, List.length_singleton]
        omega

theorem parent_dotdots {out : RelativeOutput size} {count : ℕ} (wrote : Wrote out (dotdots count))
    (fits : 3 * count + 2 ≤ size) :
    ∃ next, out.parent = some next ∧ Wrote next (dotdots (count + 1)) := by
  have length := wrote.length
  rw [length_dotdots] at length
  rw [dotdots_succ]
  unfold RelativeOutput.parent
  by_cases isZero : count = 0
  · rw [if_pos (by omega), if_pos isZero]
    apply wrote.push
    rw [length_dotdots, List.length_cons, List.length_singleton]
    omega
  · rw [if_neg (by omega), if_neg isZero]
    apply wrote.push
    rw [length_dotdots, List.length_cons, List.length_cons, List.length_singleton]
    omega

theorem parents_name {name : List UInt8} (noSlash : ∀ c ∈ name, c ≠ 0x2f) (rest : List UInt8)
    (out : RelativeOutput size) : out.parents (name ++ rest) = out.parents rest := by
  induction name with
  | nil => rfl
  | cons c name ih =>
      rw [List.cons_append, RelativeOutput.parents,
        if_neg fun both => noSlash c List.mem_cons_self both.1]
      exact ih fun d isIn => noSlash d (List.mem_cons_of_mem _ isIn)

/-- There is a `..` for each name. -/
theorem parents_names {names : List (List UInt8)} (someNames : names ≠ [])
    (plain : ∀ name ∈ names, PlainName looseUnits name) (path : RootedPath looseUnits)
    {out : RelativeOutput size} {count : ℕ} (wrote : Wrote out (dotdots count))
    (fits : 3 * (count + names.length) ≤ size + 1) :
    ∃ next, out.parents (path.behind names) = some next ∧
      Wrote next (dotdots (count + names.length)) := by
  induction names generalizing out count with
  | nil => exact absurd rfl someNames
  | cons name names ih =>
      have notSlash (c : UInt8) (isIn : c ∈ name) : c ≠ 0x2f :=
        plainName_slash rfl (plain name List.mem_cons_self) isIn
      rw [List.length_cons] at fits ⊢
      obtain ⟨next, isNext, nextWrote⟩ := parent_dotdots wrote (by omega)
      cases names with
      | nil =>
          refine ⟨next, ?_, nextWrote⟩
          unfold RootedPath.behind
          rw [joined_singleton, parents_name notSlash]
          cases path.trailing with
          | false => exact isNext
          | true =>
              rw [if_pos rfl, RelativeOutput.parents, if_neg fun both => both.2 rfl]
              exact isNext
      | cons second names =>
          obtain ⟨last, isLast, lastWrote⟩ := ih (List.cons_ne_nil _ _)
            (fun later isIn => plain later (List.mem_cons_of_mem _ isIn)) nextWrote (by omega)
          rw [show count + 1 + (second :: names).length = count + ((second :: names).length + 1) by
            omega] at lastWrote
          refine ⟨last, ?_, lastWrote⟩
          have goesOn : path.behind (second :: names) ≠ [] := by
            obtain ⟨c, more, isCons, -⟩ := path.behind_cons (List.cons_ne_nil second names)
              fun later isIn => plain later (List.mem_cons_of_mem _ isIn)
            rw [isCons]
            exact List.cons_ne_nil _ _
          have isBehind : path.behind (name :: second :: names) =
              name ++ 0x2f :: path.behind (second :: names) := by
            unfold RootedPath.behind
            rw [joined_cons 0x2f name (List.cons_ne_nil _ _), List.append_assoc, List.cons_append]
          rw [isBehind, parents_name notSlash, RelativeOutput.parents, if_pos ⟨rfl, goesOn⟩, isNext]
          exact isLast

/-! ### The rest of the destination -/

theorem appendTail_start {out : RelativeOutput size} (wrote : Wrote out []) (c : UInt8)
    (more : List UInt8) (fits : (c :: more).length ≤ size) :
    ∃ next, out.appendTail (c :: more) = some next ∧ Wrote next (c :: more) := by
  have length := wrote.length
  obtain ⟨next, isNext, nextWrote⟩ :=
    wrote.push (show ([] : List UInt8).length + (c :: more).length ≤ size by
      rw [List.length_nil, Nat.zero_add]
      exact fits)
  refine ⟨next, ?_, nextWrote⟩
  unfold RelativeOutput.appendTail
  dsimp only
  rw [length, if_neg (by simp)]
  exact isNext

theorem appendTail_slash {out : RelativeOutput size} {text : List UInt8} (wrote : Wrote out text)
    (more : List UInt8) (fits : text.length + (0x2f :: more).length ≤ size) :
    ∃ next, out.appendTail (0x2f :: more) = some next ∧ Wrote next (text ++ 0x2f :: more) := by
  obtain ⟨next, isNext, nextWrote⟩ := wrote.push fits
  refine ⟨next, ?_, nextWrote⟩
  unfold RelativeOutput.appendTail
  dsimp only
  rw [if_neg (by simp [isSepPosix])]
  exact isNext

theorem finish_wrote {out : RelativeOutput size} {text : List UInt8} (wrote : Wrote out text) :
    out.finish = some text ∨
      ∃ front, text = front ++ [0x2f] ∧ 3 ≤ front.length ∧ out.finish = some front := by
  unfold RelativeOutput.finish
  by_cases isLong : 3 < out.outLen
  · have length := wrote.length
    have someText : text ≠ [] := by
      rintro rfl
      rw [List.length_nil] at length
      omega
    rw [if_pos isLong, wrote.last someText, List.getLast?_eq_some_getLast someText]
    dsimp only
    by_cases isSlash : text.getLast someText = 0x2f
    · obtain ⟨front, isText⟩ := List.getLast?_eq_some_iff.mp
        ((List.getLast?_eq_some_getLast someText).trans (congrArg some isSlash))
      rw [if_pos isSlash]
      rw [isText, List.length_append, List.length_singleton] at length
      refine Or.inr ⟨front, isText, by omega, ?_⟩
      have isTaken := congrArg (List.take front.length) wrote.isText
      rw [List.take_take, Nat.min_eq_left (by omega), isText, List.take_left' rfl] at isTaken
      rw [show out.outLen - 1 = front.length by omega, isTaken]
    · rw [if_neg isSlash, wrote.isText]
      exact Or.inl rfl
  · rw [if_neg isLong, wrote.isText]
    exact Or.inl rfl

/-! ### The relative path -/

/-- Of the texts of segments the last ends in no separator, but there may be one behind it. -/
structure RelativeText (ups : ℕ) (names : List (List UInt8)) (relative : List UInt8) : Prop where
  isText : relative = joined 0x2f (KeptPath.segments looseUnits ⟨ups, names⟩) ∨
    KeptPath.segments looseUnits ⟨ups, names⟩ ≠ [] ∧
      relative = joined 0x2f (KeptPath.segments looseUnits ⟨ups, names⟩) ++ [0x2f]

theorem lastIndexOfChar_directoryText (names : List (List UInt8)) :
    lastIndexOfChar (directoryText names) 0x2f = some ((directoryText names).length - 1) := by
  obtain ⟨front, isText⟩ := List.getLast?_eq_some_iff.mp (getLast?_directoryText names)
  unfold lastIndexOfChar
  rw [isText, List.reverse_concat, List.idxOf?_cons, if_pos (by decide), Option.map_some,
    List.length_append, List.length_singleton, Nat.sub_zero]

/-- The common path is never a part of a path without its last separator. -/
theorem baseOf_eq_false {start target : RootedPath looseUnits} {common fromRest toRest : List (List UInt8)}
    (names : CommonNames start target common fromRest toRest) :
    baseOf ((directoryText common).drop 1) start.text target.text = false := by
  have commonPlain : ∀ name ∈ common, PlainName looseUnits name := fun name isIn =>
    start.plain name (names.isStart ▸ List.mem_append_left _ isIn)
  rw [Bool.eq_false_iff]
  intro isBase
  unfold baseOf at isBase
  rw [Bool.and_eq_true, Bool.and_eq_true, decide_eq_true_iff, decide_eq_true_iff, Bool.or_eq_true,
    List.length_drop] at isBase
  obtain ⟨⟨isShortest, -⟩, isRoot | isSlash⟩ := isBase
  · rw [List.isEmpty_iff, List.drop_eq_nil_iff] at isRoot
    have startLength : 0 < start.text.length := Nat.succ_pos _
    have targetLength : 0 < target.text.length := Nat.succ_pos _
    omega
  · obtain ⟨front, isText⟩ := List.getLast?_eq_some_iff.mp (getLast?_directoryText common)
    have isFront : directoryText common <+: target.text ++ [0x2f] := by
      obtain ⟨rest, isWhole, -⟩ := directoryText_append common toRest
      rw [← names.isTarget] at isWhole
      exact (isWhole ▸ List.prefix_append _ _).trans target.text_front.2
    have startLength : 0 < start.text.length := Nat.succ_pos _
    have targetLength : 0 < target.text.length := Nat.succ_pos _
    have apart := (directoryText_rooted rfl commonPlain).apart
    have isBelow := isFront.length_le
    rw [isText, List.length_append, List.length_singleton] at isShortest isBelow isSlash
    rw [List.length_append, List.length_singleton] at isBelow
    rw [isText, List.isChain_append] at apart
    -- the cell before the last separator is the end of a name
    obtain ⟨rest, isWhole⟩ := isFront
    rw [isText] at isWhole
    have isCell := congrArg (·[front.length - 1]?) isWhole
    rw [List.append_assoc, List.getElem?_append_left (by omega),
      List.getElem?_append_left (by omega), ← List.getLast?_eq_getElem?] at isCell
    have isLast : front.getLast? = some 0x2f := by
      rw [isCell]
      exact beq_iff_eq.mp isSlash
    exact apart.2.2 _ isLast _ rfl ⟨rfl, rfl⟩

/-- What has been written is the join of the `..` elements and the names. -/
theorem joined_written {target : RootedPath looseUnits} {fromRest toRest : List (List UInt8)}
    {last : RelativeOutput size}
    (written : toRest = [] ∧ Wrote last (dotdots fromRest.length) ∨
      toRest ≠ [] ∧ fromRest = [] ∧ Wrote last (target.behind toRest) ∨
      toRest ≠ [] ∧ fromRest ≠ [] ∧
        Wrote last (dotdots fromRest.length ++ 0x2f :: target.behind toRest)) :
    Wrote last (joined 0x2f (KeptPath.segments looseUnits ⟨fromRest.length, toRest⟩) ++
      if target.trailing = true ∧ toRest ≠ [] then [0x2f] else []) := by
  unfold KeptPath.segments
  dsimp only
  unfold dotdots RootedPath.behind at written
  rcases written with ⟨noTarget, wrote⟩ | ⟨someTarget, noRest, wrote⟩ | ⟨someTarget, someRest, wrote⟩
  · rw [noTarget, if_neg (fun both => both.2 rfl), List.append_nil, List.append_nil]
    exact wrote
  · rw [noRest]
    simp only [someTarget, ne_eq, not_false_eq_true, and_true, List.length_nil, List.replicate_zero,
      List.nil_append]
    exact wrote
  · have someUps : List.replicate fromRest.length [looseUnits.dot, looseUnits.dot] ≠ [] := by
      rw [ne_eq, List.replicate_eq_nil_iff, List.length_eq_zero_iff]
      exact someRest
    rw [joined_append 0x2f someUps someTarget]
    simp only [someTarget, ne_eq, not_false_eq_true, and_true, List.append_assoc, List.cons_append]
    exact wrote

/-- The separator that is dropped at the end is the one behind the last name. -/
theorem finish_relativeText {last : RelativeOutput size} {ups : ℕ} {names : List (List UInt8)}
    (plain : ∀ name ∈ names, PlainName looseUnits name) {trailing : Bool}
    (wrote : Wrote last (joined 0x2f (KeptPath.segments looseUnits ⟨ups, names⟩) ++
      if trailing = true ∧ names ≠ [] then [0x2f] else [])) :
    ∃ relative, last.finish = some relative ∧ RelativeText ups names relative := by
  by_cases ends : trailing = true ∧ names ≠ []
  · have someSegments : KeptPath.segments looseUnits ⟨ups, names⟩ ≠ [] :=
      List.append_ne_nil_of_right_ne_nil _ ends.2
    rw [if_pos ends] at wrote
    rcases finish_wrote wrote with isWhole | ⟨front, isText, -, isFront⟩
    · exact ⟨_, isWhole, ⟨Or.inr ⟨someSegments, rfl⟩⟩⟩
    · exact ⟨front, isFront, ⟨Or.inl (List.append_cancel_right isText).symm⟩⟩
  · rw [if_neg ends, List.append_nil] at wrote
    rcases finish_wrote wrote with isWhole | ⟨front, isText, -, -⟩
    · exact ⟨_, isWhole, ⟨Or.inl rfl⟩⟩
    · have isPlain : KeptPath.Plain looseUnits ⟨ups, names⟩ := plain
      have notSeparator := getLast?_joined_segments isPlain (c := 0x2f) (by
        rw [show looseUnits.separator = 0x2f from rfl, isText, List.getLast?_concat])
      exact absurd notSeparator (by decide)

section

variable {start target : RootedPath looseUnits} {common fromRest toRest : List (List UInt8)}
  (names : CommonNames start target common fromRest toRest)

include names

theorem CommonNames.fromRest_plain : ∀ name ∈ fromRest, PlainName looseUnits name :=
  fun name isIn => start.plain name (names.isStart ▸ List.mem_append_right _ isIn)

theorem CommonNames.toRest_plain : ∀ name ∈ toRest, PlainName looseUnits name :=
  fun name isIn => target.plain name (names.isTarget ▸ List.mem_append_right _ isIn)

/-- There is something left of the first path when its text is longer than the directory. -/
theorem CommonNames.start_length :
    fromRest = [] ∧ (start.text.length = (directoryText common).length ∨
        start.text.length + 1 = (directoryText common).length) ∨
      fromRest ≠ [] ∧ start.text = directoryText common ++ start.behind fromRest := by
  by_cases noRest : fromRest = []
  · have isCommon := names.isStart
    rw [noRest, List.append_nil] at isCommon
    have length := start.length_text
    rw [isCommon] at length
    exact Or.inl ⟨noRest, length⟩
  · exact Or.inr ⟨noRest, RootedPath.text_behind names.isStart noRest⟩

/-- The `..` elements are written. -/
theorem parents_written (buf : FixedArray UInt8 size) (fits : 3 * fromRest.length ≤ size + 1) :
    ∃ out, (if start.text ≠ [] ∧ 1 + 1 + ((directoryText common).length - 1) ≤ start.text.length then
        RelativeOutput.parents ⟨buf, 0⟩
          (start.text.drop (1 + 1 + ((directoryText common).length - 1)))
      else some ⟨buf, 0⟩) = some out ∧ Wrote out (dotdots fromRest.length) := by
  obtain ⟨rest, isDirectory⟩ := directoryText_cons_tail common
  have directoryLength := congrArg List.length isDirectory
  rw [List.length_cons] at directoryLength
  rcases names.start_length with ⟨noRest, length⟩ | ⟨someRest, isText⟩
  · rw [if_neg (by omega), noRest]
    exact ⟨_, rfl, Wrote.nothing buf⟩
  · obtain ⟨c, more, isBehind, notSlash⟩ := start.behind_cons someRest names.fromRest_plain
    have length := congrArg List.length isText
    rw [isBehind, List.length_append, List.length_cons] at length
    obtain ⟨out, isOut, wrote⟩ := parents_names someRest names.fromRest_plain start
      (Wrote.nothing buf) (by rw [Nat.zero_add]; exact fits)
    rw [if_pos ⟨List.cons_ne_nil _ _, by omega⟩]
    refine ⟨out, ?_, by rw [Nat.zero_add] at wrote; exact wrote⟩
    rw [isText, isBehind, show 1 + 1 + ((directoryText common).length - 1) =
      (directoryText common).length + 1 by omega, List.drop_length_add_append, List.drop_one,
      List.tail_cons]
    rw [isBehind, RelativeOutput.parents, if_neg fun both => notSlash both.1] at isOut
    exact isOut

theorem tail_written {out : RelativeOutput size} (wrote : Wrote out (dotdots fromRest.length))
    (fits : 3 * fromRest.length + target.text.length ≤ size + 1) {lastCommonSeparator : ℕ}
    (isLast : lastCommonSeparator = (directoryText common).length - 1) :
    ∃ last, (if lastCommonSeparator + 1 < target.text.length then
        out.appendTail (if (start.text ≠ [] ∧ (lastCommonSeparator = start.text.length ∨
            lastCommonSeparator = start.text.length - 1)) ∧
              (target.text.drop lastCommonSeparator).head?.any isSepPosix then
            (target.text.drop lastCommonSeparator).drop 1
          else target.text.drop lastCommonSeparator)
      else some out) = some last ∧
        (toRest = [] ∧ Wrote last (dotdots fromRest.length) ∨
          toRest ≠ [] ∧ fromRest = [] ∧ Wrote last (target.behind toRest) ∨
          toRest ≠ [] ∧ fromRest ≠ [] ∧
            Wrote last (dotdots fromRest.length ++ 0x2f :: target.behind toRest)) := by
  obtain ⟨front, isDirectory⟩ := List.getLast?_eq_some_iff.mp (getLast?_directoryText common)
  have directoryLength := congrArg List.length isDirectory
  rw [List.length_append, List.length_singleton] at directoryLength
  have startPos : 0 < start.text.length := Nat.succ_pos _
  by_cases noTarget : toRest = []
  · have isCommon := names.isTarget
    rw [noTarget, List.append_nil] at isCommon
    have length := target.length_text
    rw [isCommon] at length
    rw [if_neg (by omega)]
    exact ⟨out, rfl, Or.inl ⟨noTarget, wrote⟩⟩
  · have isText := RootedPath.text_behind names.isTarget noTarget
    obtain ⟨c, more, isBehind, notSlash⟩ := target.behind_cons noTarget names.toRest_plain
    have length := congrArg List.length isText
    rw [isBehind, List.length_append, List.length_cons] at length
    have isTail : target.text.drop lastCommonSeparator = 0x2f :: target.behind toRest := by
      rw [isText, isDirectory, List.append_assoc, List.drop_left' (by omega)]
      rfl
    rw [if_pos (by omega), isTail, List.head?_cons]
    rcases names.start_length with ⟨noRest, startLength⟩ | ⟨someRest, startText⟩
    · rw [noRest] at wrote
      rw [if_pos ⟨⟨List.ne_nil_of_length_pos startPos, by omega⟩, rfl⟩, List.drop_one,
        List.tail_cons, isBehind]
      obtain ⟨last, isLast, lastWrote⟩ := appendTail_start wrote c more (by
        rw [List.length_cons]
        omega)
      exact ⟨last, isLast, Or.inr (Or.inl ⟨noTarget, noRest, lastWrote⟩)⟩
    · obtain ⟨d, later, isLater, -⟩ := start.behind_cons someRest names.fromRest_plain
      have startLength := congrArg List.length startText
      rw [isLater, List.length_append, List.length_cons] at startLength
      have restPos := List.length_pos_iff.mpr someRest
      rw [if_neg (by
        rintro ⟨⟨-, isEnd⟩, -⟩
        omega)]
      obtain ⟨last, isLast, lastWrote⟩ := appendTail_slash wrote (target.behind toRest) (by
        rw [length_dotdots, List.length_cons, isBehind, List.length_cons]
        omega)
      exact ⟨last, isLast, Or.inr (Or.inr ⟨noTarget, someRest, lastWrote⟩)⟩

theorem relativeToCommonPath_writes (alwaysCopy : Bool) (buf : FixedArray UInt8 size)
    (fits : 3 * fromRest.length + target.text.length ≤ size + 1) :
    ∃ relative, relativeToCommonPath alwaysCopy (directoryText common) start.text target.text buf =
        some relative ∧ RelativeText fromRest.length toRest relative := by
  obtain ⟨out, isOut, wrote⟩ := parents_written names buf (by omega)
  obtain ⟨last, isLast, written⟩ := tail_written names wrote fits rfl
  obtain ⟨relative, isRelative, isText⟩ :=
    finish_relativeText names.toRest_plain (joined_written written)
  obtain ⟨rest, isDirectory⟩ := directoryText_cons_tail common
  unfold relativeToCommonPath
  dsimp only
  rw [if_pos (show (directoryText common).head? = some 0x2f by rw [isDirectory]; rfl),
    baseOf_eq_false names, if_neg Bool.false_ne_true, lastIndexOfChar_directoryText,
    Option.getD_some,
    if_pos (show start.text.head?.any isSepPosix = true from rfl), isOut, Option.bind_eq_bind,
    Option.bind_some, isLast, Option.bind_some]
  exact ⟨relative, isRelative, isText⟩

end

end Bun.Paths
