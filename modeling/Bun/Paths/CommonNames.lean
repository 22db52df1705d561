/-
The names that two paths have in common.

The directory that both paths lie in ends behind a name, so it is the text of names that
both paths begin with.
-/

import Bun.Paths.CommonDirectories

set_option autoImplicit false

namespace Bun.Paths

open Bun.Foundation

/-! ### Texts and names -/

theorem keptPath_separator (allowAboveRoot : Bool) (rest : List UInt8) :
    keptPath looseUnits allowAboveRoot (0x2f :: rest) = keptPath looseUnits allowAboveRoot rest :=
  foldl_separator looseUnits.isSeparator_separator rest _

theorem keptPath_directoryText {names : List (List UInt8)}
    (plain : ∀ name ∈ names, PlainName looseUnits name) :
    keptPath looseUnits true (directoryText names) = ⟨0, names⟩ := by
  have wellFormed : KeptPath.WellFormed looseUnits true ⟨0, names⟩ :=
    ⟨plain, fun isFalse => absurd isFalse (by decide)⟩
  have isText := keptPath_joined wellFormed
  rw [directoryText_eq, keptPath_separator]
  by_cases noNames : names = []
  · rw [noNames]
    rfl
  · rw [if_pos noNames]
    exact (keptPath_append_separator true _).trans isText

theorem directoryText_injective {left right : List (List UInt8)}
    (leftPlain : ∀ name ∈ left, PlainName looseUnits name)
    (rightPlain : ∀ name ∈ right, PlainName looseUnits name)
    (same : directoryText left = directoryText right) : left = right := by
  have isSame := congrArg (keptPath looseUnits true) same
  rw [keptPath_directoryText leftPlain, keptPath_directoryText rightPlain] at isSame
  exact congrArg KeptPath.names isSame

theorem directoryText_append (front back : List (List UInt8)) :
    ∃ rest, directoryText (front ++ back) = directoryText front ++ rest ∧
      0x2f :: rest = directoryText back := by
  induction front with
  | nil =>
      obtain ⟨rest, isText⟩ := directoryText_cons_tail back
      exact ⟨rest, isText, isText.symm⟩
  | cons name front ih =>
      obtain ⟨rest, isText, isBack⟩ := ih
      refine ⟨rest, ?_, isBack⟩
      rw [List.cons_append, directoryText, directoryText, isText, List.cons_append,
        List.append_assoc]

theorem front_of_directoryText {names : List (List UInt8)}
    (plain : ∀ name ∈ names, PlainName looseUnits name) {front : List UInt8}
    (isFront : front <+: directoryText names) (ends : front.getLast? = some 0x2f) :
    ∃ common, common <+: names ∧ front = directoryText common := by
  induction names generalizing front with
  | nil =>
      have isBelow := isFront.length_le
      obtain ⟨before, rfl⟩ := List.getLast?_eq_some_iff.mp ends
      rw [directoryText, List.length_append, List.length_singleton] at isBelow
      rw [List.length_eq_zero_iff.mp (show before.length = 0 by omega)]
      exact ⟨[], List.nil_prefix, rfl⟩
  | cons name names ih =>
      have namePlain := plain name List.mem_cons_self
      cases front with
      | nil => cases ends
      | cons c front =>
          rw [directoryText, List.cons_prefix_cons] at isFront
          obtain ⟨rfl, isFront⟩ := isFront
          by_cases atRoot : front = []
          · rw [atRoot]
            exact ⟨[], List.nil_prefix, rfl⟩
          · rw [List.getLast?_cons, List.getLast?_eq_some_getLast atRoot, Option.getD_some] at ends
            have isSlash := Option.some.inj ends
            rcases Nat.lt_or_ge name.length front.length with longer | shorter
            · obtain ⟨behind, rfl⟩ := List.prefix_of_prefix_length_le (List.prefix_append _ _) isFront
                longer.le
              rw [List.prefix_append_right_inj] at isFront
              have someBehind : behind ≠ [] := by
                rintro rfl
                rw [List.append_nil] at longer
                exact absurd longer (Nat.lt_irrefl _)
              rw [List.getLast_append_of_ne_nil _ someBehind] at isSlash
              obtain ⟨common, isCommon, isText⟩ := ih
                (fun later isIn => plain later (List.mem_cons_of_mem _ isIn)) isFront
                ((List.getLast?_eq_some_getLast someBehind).trans (congrArg some isSlash))
              exact ⟨name :: common, List.cons_prefix_cons.mpr ⟨rfl, isCommon⟩, by
                rw [isText, directoryText]⟩
            · have inName := List.prefix_of_prefix_length_le isFront (List.prefix_append _ _) shorter
              have isIn := inName.subset (List.getLast_mem atRoot)
              rw [isSlash] at isIn
              exact absurd rfl (plainName_slash rfl namePlain isIn)

/-! ### The common directory of two paths -/

theorem RootedPath.text_front (path : RootedPath looseUnits) :
    path.text <+: directoryText path.names ∧ directoryText path.names <+: path.text ++ [0x2f] := by
  rcases path.text_cases with ⟨isText, -⟩ | ⟨isText, -⟩
  · rw [isText]
    exact ⟨List.prefix_rfl, List.prefix_append _ _⟩
  · rw [isText]
    exact ⟨List.prefix_append _ _, List.prefix_rfl⟩

theorem IsCommonDirectory.front_of_names {paths : List (List UInt8)} {directory : List UInt8}
    (rooted : ∀ path ∈ paths, Rooted path) (common : IsCommonDirectory paths directory)
    {path : RootedPath looseUnits} (isIn : path.text ∈ paths) : directory <+: directoryText path.names := by
  have isFront := common.common path.text isIn
  rcases path.text_cases with ⟨isText, -⟩ | ⟨isText, -⟩
  · rw [← isText] at isFront
    rcases Nat.lt_or_ge (directoryText path.names).length directory.length with longer | shorter
    · -- no path goes on with a second separator
      exfalso
      have isBelow := isFront.length_le
      rw [List.length_append, List.length_singleton] at isBelow
      have isLonger := isFront.eq_of_length (by
        rw [List.length_append, List.length_singleton]
        omega)
      obtain ⟨shown, shownIn, isShown⟩ := common.shown
      have apart := List.IsChain.prefix (rooted shown shownIn).apart isShown
      rw [isLonger, List.isChain_append] at apart
      exact apart.2.2 _ (getLast?_directoryText path.names) _ rfl ⟨rfl, rfl⟩
    · exact List.prefix_of_prefix_length_le isFront (List.prefix_append _ _) shorter
  · rw [isText]
    exact isFront

theorem RootedPath.keptPath_text (path : RootedPath looseUnits) :
    keptPath looseUnits true path.text = ⟨0, path.names⟩ := by
  have isNames := keptPath_directoryText path.plain
  rcases path.text_cases with ⟨isText, -⟩ | ⟨isText, -⟩
  · rw [← isText]
    exact isNames
  · rw [isText] at isNames
    exact (keptPath_append_separator true path.text).symm.trans isNames

structure CommonNames (start target : RootedPath looseUnits) (common fromRest toRest : List (List UInt8)) :
    Prop where
  isStart : start.names = common ++ fromRest
  isTarget : target.names = common ++ toRest

/-- What comes behind the directory of the common names. -/
def RootedPath.behind (path : RootedPath looseUnits) (rest : List (List UInt8)) : List UInt8 :=
  joined 0x2f rest ++ if path.trailing then [0x2f] else []

theorem RootedPath.text_behind {path : RootedPath looseUnits} {common rest : List (List UInt8)}
    (isPath : path.names = common ++ rest) (someRest : rest ≠ []) :
    path.text = directoryText common ++ path.behind rest := by
  have someNames : path.names ≠ [] := by
    rw [isPath]
    exact List.append_ne_nil_of_right_ne_nil _ someRest
  rw [directoryText_eq]
  unfold RootedPath.text RootedPath.behind
  have isTrailing : (if path.trailing = true ∧ path.names ≠ [] then [0x2f] else ([] : List UInt8)) =
      if path.trailing = true then [0x2f] else [] := by
    cases path.trailing with
    | true => rw [if_pos ⟨rfl, someNames⟩, if_pos rfl]
    | false => rw [if_neg (fun both => absurd both.1 (by decide)), if_neg (by decide)]
  rw [isTrailing, isPath]
  by_cases noCommon : common = []
  · rw [noCommon, if_neg (show ¬ ([] : List (List UInt8)) ≠ [] from fun someCommon => someCommon rfl)]
    rfl
  · rw [if_pos noCommon, joined_append 0x2f noCommon someRest]
    simp only [List.cons_append, List.append_assoc, List.nil_append]

theorem RootedPath.behind_cons {path : RootedPath looseUnits} {rest : List (List UInt8)}
    (someRest : rest ≠ []) (plain : ∀ name ∈ rest, PlainName looseUnits name) :
    ∃ c more, path.behind rest = c :: more ∧ c ≠ 0x2f := by
  obtain ⟨name, names, rfl⟩ := List.exists_cons_of_ne_nil someRest
  have namePlain := plain name List.mem_cons_self
  obtain ⟨c, more, rfl⟩ := List.exists_cons_of_ne_nil namePlain.notEmpty
  have notSlash := plainName_slash rfl namePlain List.mem_cons_self
  unfold RootedPath.behind
  cases names with
  | nil => exact ⟨c, _, by rw [joined_singleton, List.cons_append], notSlash⟩
  | cons next names =>
      rw [joined_cons 0x2f _ (List.cons_ne_nil _ _), List.cons_append, List.cons_append]
      exact ⟨c, _, rfl, notSlash⟩

/-- When nothing comes behind, at most the last separator is missing. -/
theorem RootedPath.length_text (path : RootedPath looseUnits) :
    path.text.length = (directoryText path.names).length ∨
      path.text.length + 1 = (directoryText path.names).length := by
  rcases path.text_cases with ⟨isText, -⟩ | ⟨isText, -⟩
  · exact Or.inl (congrArg List.length isText).symm
  · refine Or.inr ?_
    rw [isText, List.length_append]
    rfl

/-- The common directory of two paths is that of the names they both begin with, as many as
there are. -/
theorem longestCommonPath_names {start target : RootedPath looseUnits} (differ : start.text ≠ target.text) :
    ∃ common fromRest toRest, CommonNames start target common fromRest toRest ∧
      longestCommonPathGeneric isSepPosix [start.text, target.text] = directoryText common ∧
      (start.names = target.names → fromRest = [] ∧ toRest = []) := by
  have rooted : ∀ path ∈ [start.text, target.text], Rooted path := by
    intro path isIn
    rcases List.mem_cons.mp isIn with rfl | isSecond
    · exact start.rooted rfl
    · rw [List.mem_singleton.mp isSecond]
      exact target.rooted rfl
  have slashes : Slashes isSepPosix [start.text, target.text] :=
    fun path _ c _ => beq_iff_eq
  have startIn : start.text ∈ [start.text, target.text] := List.mem_cons_self
  have targetIn : target.text ∈ [start.text, target.text] :=
    List.mem_cons_of_mem _ List.mem_cons_self
  have longest : IsLongestCommonDirectory [start.text, target.text]
      (longestCommonPathGeneric isSepPosix [start.text, target.text]) :=
    longestCommonPathGeneric_of_few (List.cons_ne_nil _ _) (by simp) rooted rfl slashes
  obtain ⟨common, ⟨fromRest, isStart⟩, isText⟩ := front_of_directoryText start.plain
    (longest.isCommon.front_of_names rooted startIn) longest.isCommon.ends
  obtain ⟨other, ⟨toRest, isTarget⟩, isOther⟩ := front_of_directoryText target.plain
    (longest.isCommon.front_of_names rooted targetIn) longest.isCommon.ends
  have isSame : common = other := directoryText_injective
    (fun name isIn => start.plain name (isStart ▸ List.mem_append_left _ isIn))
    (fun name isIn => target.plain name (isTarget ▸ List.mem_append_left _ isIn))
    (isText.symm.trans isOther)
  subst isSame
  refine ⟨common, fromRest, toRest, ⟨isStart.symm, isTarget.symm⟩, isText, fun sameNames => ?_⟩
  -- the directory of all the names is shown by the path that ends in a separator
  have isShown : ∃ path ∈ [start.text, target.text], directoryText start.names <+: path := by
    rcases start.text_cases with ⟨startWhole, -⟩ | ⟨startBare, -⟩
    · exact ⟨start.text, startIn, by rw [startWhole]⟩
    · rcases target.text_cases with ⟨targetWhole, -⟩ | ⟨targetBare, -⟩
      · exact ⟨target.text, targetIn, by rw [sameNames, targetWhole]⟩
      · rw [sameNames, targetBare] at startBare
        exact absurd (List.append_cancel_right startBare).symm differ
  have isAll : IsCommonDirectory [start.text, target.text] (directoryText start.names) := by
    refine ⟨getLast?_directoryText _, isShown, ?_⟩
    intro path isIn
    rcases List.mem_cons.mp isIn with rfl | isSecond
    · exact start.text_front.2
    · rw [List.mem_singleton.mp isSecond, sameNames]
      exact target.text_front.2
  have noLonger := longest.isLongest _ isAll
  obtain ⟨behind, isWhole, isRest⟩ := directoryText_append common fromRest
  rw [isText, ← isStart, isWhole, List.length_append] at noLonger
  have noBehind : behind = [] := List.length_eq_zero_iff.mp (by omega)
  rw [noBehind] at isRest
  have noFrom : fromRest = [] := by
    cases fromRest with
    | nil => rfl
    | cons name later =>
        obtain ⟨more, isMore⟩ := directoryText_cons_tail later
        have isNil := (List.cons.inj isRest).2
        rw [isMore] at isNil
        exact absurd isNil.symm (List.append_ne_nil_of_right_ne_nil _ (List.cons_ne_nil _ _))
  refine ⟨noFrom, ?_⟩
  rw [← isStart, ← isTarget, noFrom] at sameNames
  exact (List.append_cancel_left sameNames).symm

end Bun.Paths
