/-
The tag parser.  The texts that it stores consist of tag characters, a `+` is in
the build text alone while every byte is valid, and a printed tag reads back as
itself.
-/

import Bun.Semver.Precedence
import Bun.Semver.VersionParse

set_option autoImplicit false

namespace Bun.Semver

structure TagCursor.Clean (cursor : TagCursor) : Prop where
  seen : cursor.seen.all validPreOrBuildTagCharacter = true
  text : cursor.text.all validPreOrBuildTagCharacter = true
  tag : cursor.tag.AsParsed

/-- Until an invalid byte is met, a `+` is only ever in the build text. -/
structure TagCursor.PlusFree (cursor : TagCursor) : Prop where
  start : cursor.state = .none → cursor.text = cursor.seen
  text : cursor.state ≠ .build → plus ∉ cursor.text
  pre : plus ∉ cursor.tag.pre

namespace TagCursor

def extend (cursor : TagCursor) (c : UInt8) : TagCursor :=
  { cursor with text := cursor.text ++ [c], seen := cursor.seen ++ [c] }

/-- Start a new text behind the byte that announces it. -/
def enter (cursor : TagCursor) (c : UInt8) (state : TagState) (tag : Tag) : TagCursor :=
  { state, text := [], seen := cursor.seen ++ [c], tag }

theorem all_concat {p : UInt8 → Bool} {text : List UInt8} {c : UInt8} (front : text.all p = true)
    (last : p c = true) : (text ++ [c]).all p = true := by
  rw [List.all_append, front, List.all_cons, last]
  rfl

theorem Clean.extend {cursor : TagCursor} (clean : cursor.Clean) {c : UInt8}
    (valid : validPreOrBuildTagCharacter c = true) : (cursor.extend c).Clean where
  seen := all_concat clean.seen valid
  text := all_concat clean.text valid
  tag := clean.tag

theorem Clean.enter {cursor : TagCursor} (clean : cursor.Clean) {c : UInt8}
    (valid : validPreOrBuildTagCharacter c = true) (state : TagState) {tag : Tag}
    (parsed : tag.AsParsed) : (cursor.enter c state tag).Clean where
  seen := all_concat clean.seen valid
  text := rfl
  tag := parsed

theorem Clean.closePre {cursor : TagCursor} (clean : cursor.Clean) :
    Tag.AsParsed { cursor.tag with pre := cursor.text } :=
  ⟨clean.text, clean.tag.2⟩

theorem Clean.closeBuild {cursor : TagCursor} (clean : cursor.Clean) :
    Tag.AsParsed { cursor.tag with build := cursor.text } :=
  ⟨clean.tag.1, clean.text⟩

theorem PlusFree.extend {cursor : TagCursor} (free : cursor.PlusFree) {c : UInt8}
    (allowed : cursor.state ≠ .build → c ≠ plus) : (cursor.extend c).PlusFree where
  start isNone := congrArg (· ++ [c]) (free.start isNone)
  text notBuild := by
    intro member
    rcases List.mem_append.mp member with front | last
    · exact free.text notBuild front
    · exact allowed notBuild (List.mem_singleton.mp last).symm
  pre := free.pre

theorem PlusFree.enter {cursor : TagCursor} (c : UInt8) {state : TagState} (inside : state ≠ .none)
    {tag : Tag} (free : plus ∉ tag.pre) : (cursor.enter c state tag).PlusFree where
  start isNone := absurd isNone inside
  text _ := List.not_mem_nil
  pre := free

end TagCursor

namespace Tag

theorem parseLoop_cases (count : Nat) (cursor : TagCursor) (c : UInt8) (rest : List UInt8) :
    (∃ tag, parseLoop count cursor (c :: rest) =
        parseLoop count (cursor.enter c .build tag) rest ∧ c = plus ∧ cursor.state ≠ .build ∧
          (tag = cursor.tag ∨ tag = { cursor.tag with pre := cursor.text })) ∨
      (parseLoop count cursor (c :: rest) =
        parseLoop count (cursor.enter c .pre cursor.tag) rest ∧ c = hyphen ∧ cursor.state = .none) ∨
      (parseLoop count cursor (c :: rest) = parseLoop count (cursor.extend c) rest ∧
        validPreOrBuildTagCharacter c = true ∧ (cursor.state ≠ .build → c ≠ plus)) ∨
      (∃ tag, parseLoop count cursor (c :: rest) = { cursor with state := .none, tag := tag } ∧
        validPreOrBuildTagCharacter c = false ∧ (tag = cursor.tag ∨
          tag = { cursor.tag with pre := cursor.text } ∨
          tag = { cursor.tag with build := cursor.text })) := by
  by_cases isPlus : c = plus
  · by_cases inBuild : cursor.state = .build
    · refine Or.inr (Or.inr (Or.inl ⟨?_, by rw [isPlus]; decide, fun other => absurd inBuild other⟩))
      rw [parseLoop]
      simp only [if_pos isPlus, inBuild, reduceCtorEq, false_and, or_self, if_false, ne_eq,
        not_true_eq_false, TagCursor.extend]
    · refine Or.inl ⟨if cursor.state = .pre ∨ cursor.state = .none ∧ count > 0 then
        { cursor.tag with pre := cursor.text } else cursor.tag, ?_, isPlus, inBuild, ?_⟩
      · rw [parseLoop]
        simp only [if_pos isPlus, ne_eq, inBuild, not_false_eq_true, if_true, TagCursor.enter]
      split
      · exact Or.inr rfl
      · exact Or.inl rfl
  · by_cases isHyphen : c = hyphen
    · by_cases outside : cursor.state = .none
      · refine Or.inr (Or.inl ⟨?_, isHyphen, outside⟩)
        rw [parseLoop]
        simp only [if_neg isPlus, if_pos isHyphen, outside, if_true, TagCursor.enter]
      · refine Or.inr (Or.inr (Or.inl ⟨?_, by rw [isHyphen]; decide, fun _ => isPlus⟩))
        rw [parseLoop]
        simp only [if_neg isPlus, if_pos isHyphen, if_neg outside, TagCursor.extend]
    · by_cases valid :
        (isAsciiLowercase c || isAsciiUppercase c || isAsciiDigit c || c == dot) = true
      · refine Or.inr (Or.inr (Or.inl ⟨?_, ?_, fun _ => isPlus⟩))
        · rw [parseLoop]
          simp only [if_neg isPlus, if_neg isHyphen, if_pos valid, TagCursor.extend]
        · unfold validPreOrBuildTagCharacter
          simp only [Bool.or_eq_true] at valid ⊢
          tauto
      · have invalid : validPreOrBuildTagCharacter c = false := by
          unfold validPreOrBuildTagCharacter
          rw [beq_false_of_ne isHyphen, beq_false_of_ne isPlus]
          simp only [Bool.or_eq_true, not_or, Bool.not_eq_true] at valid
          simp only [valid, Bool.or_self]
        refine Or.inr (Or.inr (Or.inr ?_))
        rw [parseLoop]
        simp only [if_neg isPlus, if_neg isHyphen, if_neg valid]
        obtain ⟨state, text, seen, tag⟩ := cursor
        cases state with
        | none => exact ⟨tag, rfl, invalid, Or.inl rfl⟩
        | pre => exact ⟨_, rfl, invalid, Or.inr (Or.inl rfl)⟩
        | build => exact ⟨_, rfl, invalid, Or.inr (Or.inr rfl)⟩

/-- The texts that the tag parser stores consist of tag characters. -/
theorem parseLoop_clean (count : Nat) (cursor : TagCursor) (clean : cursor.Clean)
    (input : List UInt8) : (parseLoop count cursor input).Clean := by
  induction input generalizing cursor with
  | nil => exact clean
  | cons c rest ih =>
      rcases parseLoop_cases count cursor c rest with
        ⟨tag, step, isPlus, _, same | closed⟩ | ⟨step, isHyphen, _⟩ | ⟨step, valid, _⟩ |
        ⟨tag, stopped, _, same | closed | closed⟩
      · rw [step, same]
        exact ih _ (clean.enter (by rw [isPlus]; decide) .build clean.tag)
      · rw [step, closed]
        exact ih _ (clean.enter (by rw [isPlus]; decide) .build clean.closePre)
      · rw [step]
        exact ih _ (clean.enter (by rw [isHyphen]; decide) .pre clean.tag)
      · rw [step]
        exact ih _ (clean.extend valid)
      · rw [stopped, same]
        exact ⟨clean.seen, clean.text, clean.tag⟩
      · rw [stopped, closed]
        exact ⟨clean.seen, clean.text, clean.closePre⟩
      · rw [stopped, closed]
        exact ⟨clean.seen, clean.text, clean.closeBuild⟩

/-- A loop that reads all of its input has not met an invalid byte. -/
theorem parseLoop_plusFree (count : Nat) (cursor : TagCursor) (free : cursor.PlusFree)
    (input : List UInt8) :
    (parseLoop count cursor input).seen.length ≤ cursor.seen.length + input.length ∧
      ((parseLoop count cursor input).seen.length = cursor.seen.length + input.length →
        (parseLoop count cursor input).PlusFree) := by
  induction input generalizing cursor with
  | nil => exact ⟨Nat.le_refl _, fun _ => free⟩
  | cons c rest ih =>
      have grown : ∀ next : TagCursor, next.seen = cursor.seen ++ [c] → next.PlusFree →
          parseLoop count cursor (c :: rest) = parseLoop count next rest →
          (parseLoop count cursor (c :: rest)).seen.length ≤
              cursor.seen.length + (c :: rest).length ∧
            ((parseLoop count cursor (c :: rest)).seen.length =
                cursor.seen.length + (c :: rest).length →
              (parseLoop count cursor (c :: rest)).PlusFree) := by
        intro next seen nextFree step
        have lengths : next.seen.length + rest.length = cursor.seen.length + (c :: rest).length := by
          rw [seen, List.length_append, List.length_singleton, List.length_cons]
          omega
        rw [step, ← lengths]
        exact ih next nextFree
      rcases parseLoop_cases count cursor c rest with
        ⟨tag, step, _, notBuild, same | closed⟩ | ⟨step, _, _⟩ | ⟨step, _, allowed⟩ |
        ⟨tag, stopped, _⟩
      · exact grown _ rfl (.enter c (by decide) (same ▸ free.pre)) step
      · exact grown _ rfl (.enter c (by decide) (closed ▸ free.text notBuild)) step
      · exact grown _ rfl (.enter c (by decide) free.pre) step
      · exact grown _ rfl (free.extend allowed) step
      · rw [stopped, List.length_cons]
        refine ⟨by change cursor.seen.length ≤ _; omega, fun consumed => ?_⟩
        change cursor.seen.length = _ at consumed
        omega

theorem openPre_clean (count : Nat) (cursor : TagCursor) (clean : cursor.Clean) :
    (openPre count cursor).Clean := by
  unfold openPre
  split
  · exact ⟨clean.seen, clean.seen, clean.tag⟩
  · exact clean

theorem openPre_plusFree (count : Nat) (cursor : TagCursor) (free : cursor.PlusFree) :
    (openPre count cursor).PlusFree := by
  unfold openPre
  split
  · rename_i outside
    refine ⟨fun _ => rfl, fun _ => ?_, free.pre⟩
    rw [← free.start outside.1]
    exact free.text (by rw [outside.1]; decide)
  · exact free

theorem openPre_seen (count : Nat) (cursor : TagCursor) :
    (openPre count cursor).seen = cursor.seen := by
  unfold openPre
  split
  · rfl
  · rfl

theorem close_asParsed (cursor : TagCursor) (clean : cursor.Clean) :
    (close cursor).tag.AsParsed := by
  unfold close
  split
  · exact clean.tag
  · exact clean.closePre
  · exact clean.closeBuild

theorem close_plusFree (cursor : TagCursor) (free : cursor.PlusFree) :
    plus ∉ (close cursor).tag.pre := by
  unfold close
  split
  · exact free.pre
  · rename_i inPre
    exact free.text (by rw [inPre]; decide)
  · exact free.pre

theorem close_len (cursor : TagCursor) : (close cursor).len = cursor.seen.length := by
  unfold close
  split
  · rfl
  · rfl
  · rfl

theorem clean_start : TagCursor.Clean {} :=
  ⟨rfl, rfl, ⟨rfl, rfl⟩⟩

theorem plusFree_start : TagCursor.PlusFree {} :=
  ⟨fun _ => rfl, fun _ => List.not_mem_nil, List.not_mem_nil⟩

theorem parseWithPreCount_asParsed (input : List UInt8) (count : Nat) :
    (parseWithPreCount input count).tag.AsParsed := by
  dsimp only [parseWithPreCount]
  split
  · exact ⟨rfl, rfl⟩
  · exact close_asParsed _ (openPre_clean count _ (parseLoop_clean count {} clean_start input))

/-- A tag that ends with the input has no `+` in its prerelease. -/
theorem parseWithPreCount_plusFree (input : List UInt8) (count : Nat)
    (whole : (parseWithPreCount input count).len = input.length) :
    plus ∉ (parseWithPreCount input count).tag.pre := by
  dsimp only [parseWithPreCount] at whole ⊢
  split
  · exact List.not_mem_nil
  · rename_i counted
    rw [if_neg counted, close_len, openPre_seen] at whole
    refine close_plusFree _ (openPre_plusFree count _
      ((parseLoop_plusFree count {} plusFree_start input).2 ?_))
    rw [whole]
    exact (Nat.zero_add _).symm

/-! ### Reading a printed tag -/

theorem parseLoop_extend (count : Nat) (cursor : TagCursor) (c : UInt8) (rest : List UInt8)
    (inside : cursor.state ≠ .none) (valid : validPreOrBuildTagCharacter c = true)
    (allowed : cursor.state ≠ .build → c ≠ plus) :
    parseLoop count cursor (c :: rest) = parseLoop count (cursor.extend c) rest := by
  rcases parseLoop_cases count cursor c rest with
    ⟨tag, _, isPlus, notBuild, _⟩ | ⟨_, _, outside⟩ | ⟨step, _, _⟩ | ⟨_, _, invalid, _⟩
  · exact absurd isPlus (allowed notBuild)
  · exact absurd outside inside
  · exact step
  · exact absurd (valid.symm.trans invalid) (by decide)

theorem parseLoop_run (count : Nat) (cursor : TagCursor) (run rest : List UInt8)
    (inside : cursor.state ≠ .none) (valid : run.all validPreOrBuildTagCharacter = true)
    (allowed : cursor.state ≠ .build → plus ∉ run) :
    parseLoop count cursor (run ++ rest) =
      parseLoop count { cursor with text := cursor.text ++ run, seen := cursor.seen ++ run } rest := by
  induction run generalizing cursor with
  | nil => rw [List.append_nil, List.append_nil, List.nil_append]
  | cons c run ih =>
      rw [List.all_cons, Bool.and_eq_true] at valid
      have notPlus : cursor.state ≠ .build → c ≠ plus := by
        intro notBuild isPlus
        exact allowed notBuild (isPlus ▸ List.mem_cons_self)
      rw [List.cons_append, parseLoop_extend count cursor c _ inside valid.1 notPlus,
        ih (cursor.extend c) inside valid.2
          (fun notBuild member => allowed notBuild (List.mem_cons_of_mem c member))]
      unfold TagCursor.extend
      rw [List.append_assoc, List.append_assoc]
      rfl

def text (tag : Tag) : List UInt8 :=
  (if tag.hasPre then hyphen :: tag.pre else []) ++
    (if tag.hasBuild then plus :: tag.build else [])

theorem text_cases (tag : Tag) :
    (tag.text = [] ∧ tag = {}) ∨ ∃ c rest, tag.text = c :: rest ∧ (c = hyphen ∨ c = plus) := by
  obtain ⟨pre, build⟩ := tag
  cases pre with
  | nil =>
      cases build with
      | nil => exact Or.inl ⟨rfl, rfl⟩
      | cons c rest => exact Or.inr ⟨plus, c :: rest, rfl, Or.inr rfl⟩
  | cons c rest => exact Or.inr ⟨hyphen, _, rfl, Or.inl rfl⟩

theorem hasBuild_eq_false_iff (tag : Tag) : tag.hasBuild = false ↔ tag.build = [] := by
  unfold Tag.hasBuild
  rw [Bool.not_eq_false', List.isEmpty_iff]

theorem parseLoop_build (cursor : TagCursor) (build : List UInt8) (state : cursor.state ≠ .build)
    (valid : build.all validPreOrBuildTagCharacter = true) :
    parseLoop 0 cursor (plus :: build) =
      { state := .build, text := build, seen := cursor.seen ++ plus :: build,
        tag := if cursor.state = .pre then { cursor.tag with pre := cursor.text } else cursor.tag } := by
  have entered : parseLoop 0 cursor (plus :: build) =
      parseLoop 0 (cursor.enter plus .build (if cursor.state = .pre then
        { cursor.tag with pre := cursor.text } else cursor.tag)) (build ++ []) := by
    rw [parseLoop, List.append_nil]
    simp only [if_true, ne_eq, state, not_false_eq_true, gt_iff_lt, Nat.lt_irrefl, and_false,
      or_false, TagCursor.enter]
  rw [entered, parseLoop_run 0 _ build [] (by change TagState.build ≠ .none; decide) valid
    (fun notBuild => absurd rfl notBuild), parseLoop]
  unfold TagCursor.enter
  rw [List.append_assoc]
  rfl

theorem parse_marked (c : UInt8) (rest : List UInt8) (marks : c = hyphen ∨ c = plus) :
    parse (c :: rest) = close (parseLoop 0 {} (c :: rest)) := by
  unfold parse
  dsimp only [parseWithPreCount]
  have counted : ¬ (((c :: rest).takeWhile (· ≠ space)).count plus = 0 ∧
      ((c :: rest).takeWhile (· ≠ space)).count hyphen + 0 = 0) := by
    rcases marks with rfl | rfl
    · rw [List.takeWhile_cons_of_pos (by decide), List.count_cons_self]
      omega
    · rw [List.takeWhile_cons_of_pos (by decide), List.count_cons_self]
      omega
  rw [if_neg counted]
  unfold openPre
  rw [if_neg (fun both => absurd both.2 (Nat.lt_irrefl 0))]

theorem parseLoop_pre (pre rest : List UInt8) (valid : pre.all validPreOrBuildTagCharacter = true)
    (free : plus ∉ pre) :
    parseLoop 0 {} (hyphen :: (pre ++ rest)) =
      parseLoop 0 { state := .pre, text := pre, seen := hyphen :: pre, tag := {} } rest := by
  have entered : parseLoop 0 {} (hyphen :: (pre ++ rest)) =
      parseLoop 0 (TagCursor.enter {} hyphen .pre {}) (pre ++ rest) := by
    rw [parseLoop]
    rfl
  rw [entered, parseLoop_run 0 _ pre rest (by change TagState.pre ≠ .none; decide) valid
    (fun _ => free)]
  rfl

theorem parse_text (tag : Tag) (parsed : tag.AsParsed) (free : plus ∉ tag.pre)
    (present : tag.text ≠ []) : parse tag.text = { tag, len := tag.text.length } := by
  obtain ⟨pre, build⟩ := tag
  unfold text at present ⊢
  cases hasPre : Tag.hasPre { pre, build } with
  | false =>
      obtain rfl : pre = [] := (hasPre_eq_false_iff _).mp hasPre
      cases hasBuild : Tag.hasBuild { pre := [], build } with
      | false =>
          rw [hasPre, hasBuild] at present
          exact absurd rfl present
      | true =>
          change parse (plus :: build) = { tag := { pre := [], build }, len := (plus :: build).length }
          rw [parse_marked plus build (Or.inr rfl), parseLoop_build {} build (by decide) parsed.2]
          rfl
  | true =>
      cases hasBuild : Tag.hasBuild { pre, build } with
      | false =>
          obtain rfl : build = [] := (hasBuild_eq_false_iff _).mp hasBuild
          change parse (hyphen :: (pre ++ [])) =
            { tag := { pre, build := [] }, len := (hyphen :: (pre ++ [])).length }
          rw [parse_marked hyphen _ (Or.inl rfl), parseLoop_pre pre [] parsed.1 free, List.append_nil]
          rfl
      | true =>
          change parse (hyphen :: (pre ++ plus :: build)) =
            { tag := { pre, build }, len := (hyphen :: (pre ++ plus :: build)).length }
          rw [parse_marked hyphen _ (Or.inl rfl), parseLoop_pre pre _ parsed.1 free,
            parseLoop_build _ build (by change TagState.pre ≠ .build; decide) parsed.2]
          rfl

end Tag

end Bun.Semver
