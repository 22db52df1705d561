/-
Resolved paths stay in the package.

The segments of a target and of what a specifier leaves over are checked one by one.  The
path that is put together from them has no other segments, and decoding it decodes each of
its segments.
-/

import Bun.Foundation.Splits
import Bun.Resolver.PackageJson

set_option autoImplicit false

namespace Bun.Resolver

open Bun.Foundation Bun.Paths

/-! ### Segments -/

def decodeSegment (segment : List UInt8) : List UInt8 :=
  match segment with
  | [] => []
  | c :: rest => (nextByte c rest).1 :: decodeSegment (nextByte c rest).2
termination_by segment.length
decreasing_by
  have less := nextByte_length c rest
  rw [List.length_cons]
  omega

theorem decodeSegment_cons (c : UInt8) (rest : List UInt8) :
    decodeSegment (c :: rest) = (nextByte c rest).1 :: decodeSegment (nextByte c rest).2 := by
  rw [decodeSegment]

theorem length_of_mem_invalidSegments {segment : List UInt8} (isIn : segment ∈ invalidSegments) :
    segment.length ≤ 12 := by
  have all : ∀ segment ∈ invalidSegments, segment.length ≤ 12 := by decide
  exact all segment isIn

theorem isInvalidSegmentLoop_eq (segment decoded : List UInt8) (fits : decoded.length ≤ 12) :
    isInvalidSegmentLoop segment decoded =
      invalidSegments.contains (decoded ++ (decodeSegment segment).map toAsciiLowercase) := by
  fun_induction isInvalidSegmentLoop segment decoded with
  | case1 decoded =>
      unfold decodeSegment
      rw [List.map_nil, List.append_nil]
  | case2 decoded c rest full =>
      symm
      rw [Bool.eq_false_iff]
      intro isInvalid
      have bound := length_of_mem_invalidSegments (List.contains_iff_mem.mp isInvalid)
      rw [decodeSegment_cons, List.length_append, List.map_cons, List.length_cons] at bound
      omega
  | case3 decoded c rest notFull ih =>
      rw [ih (by rw [List.length_append, List.length_singleton]; omega), decodeSegment_cons,
        List.map_cons, List.append_assoc, List.singleton_append]

theorem isInvalidSegment_eq (segment : List UInt8) :
    isInvalidSegment segment =
      invalidSegments.contains ((decodeSegment segment).map toAsciiLowercase) :=
  isInvalidSegmentLoop_eq segment [] (Nat.zero_le _)

def Safe (path : List UInt8) : Prop :=
  EachPiece isSepAny (fun segment => isInvalidSegment segment = false) path

theorem safe_nil : Safe [] :=
  eachPiece_nil (by decide +kernel)

theorem safe_append_cons {front rest : List UInt8} {separator : UInt8}
    (isSep : isSepAny separator = true) : Safe (front ++ separator :: rest) ↔ Safe front ∧ Safe rest :=
  eachPiece_append_cons isSep

theorem safe_cons {separator : UInt8} {rest : List UInt8} (isSep : isSepAny separator = true) :
    Safe (separator :: rest) ↔ Safe rest :=
  eachPiece_cons isSep (by decide +kernel)

theorem findInvalidSubpathSegment_eq_none {path : List UInt8}
    (passes : findInvalidSubpathSegment path = none) : Safe path := by
  fun_induction findInvalidSubpathSegment path with
  | case1 => exact safe_nil
  | case2 => cases passes
  | case3 c rest segment valid ih =>
      refine (eachPiece_iff _ (by decide +kernel)).mpr ⟨?_, ih passes⟩
      simpa using valid

theorem findInvalidSegment_eq_none {path : List UInt8} (passes : findInvalidSegment path = none) :
    ∃ first separator rest, path = first ++ separator :: rest ∧ isSepAny separator = true ∧
      first.all (!isSepAny ·) = true ∧ Safe rest := by
  unfold findInvalidSegment at passes
  split at passes
  · rename_i some_sep
    rcases splitOnP_cases (p := isSepAny) path with
      ⟨_, all, _⟩ | ⟨separator, rest, isSep, dropped, isPath, _⟩
    · have none : path.all (!isSepAny ·) = true := by
        rw [← all]
        exact List.all_takeWhile
      obtain ⟨c, isIn, isSep⟩ := List.any_eq_true.mp some_sep
      have notSep := List.all_eq_true.mp none c isIn
      rw [isSep] at notSep
      cases notSep
    · rw [dropped] at passes
      exact ⟨_, separator, rest, isPath, isSep, List.all_takeWhile,
        findInvalidSubpathSegment_eq_none passes⟩
  · cases passes

/-! ### Normalization -/

theorem isSepAny_of_isSeparator {platform : Platform} {c : UInt8}
    (isSep : platform.isSeparator c = true) : isSepAny c = true := by
  cases platform with
  | loose => exact isSep
  | windows => exact isSep
  | posix =>
      have isSlash : (c == 0x2f) = true := isSep
      unfold isSepAny
      rw [isSlash, Bool.true_or]

theorem isSeparator_separator (platform : Platform) :
    platform.isSeparator platform.separator = true := by
  cases platform with
  | loose => decide
  | windows => decide
  | posix => decide

theorem isSepAny_separator (platform : Platform) : isSepAny platform.separator = true :=
  isSepAny_of_isSeparator (isSeparator_separator platform)

/-- Every element is `.` or passes. -/
def SafeElements (platform : Platform) (path : List UInt8) : Prop :=
  EachPiece platform.isSeparator (fun element => element = [0x2e] ∨ Safe element) path

theorem safeElements_of_safe {platform : Platform} {path : List UInt8} (safe : Safe path) :
    SafeElements platform path := fun element isIn =>
  Or.inr (eachPiece_of_coarser (fun _ => isSepAny_of_isSeparator) safe element isIn)

/-- The output starts at its beginning or after a separator. -/
def EndsOpen (buffer : List UInt8) : Prop :=
  buffer = [] ∨ ∃ front separator, buffer = front ++ [separator] ∧ isSepAny separator = true

theorem addSeparator_safe {platform : Platform} {start : ℕ} {buffer element : List UInt8}
    (buffered : Safe buffer) (opened : buffer.length = start → EndsOpen buffer)
    (safe : Safe element) :
    Safe (addSeparator platform.isSeparator platform.separator start buffer ++ element) := by
  have after (isOpen : EndsOpen buffer) : Safe (buffer ++ element) := by
    rcases isOpen with rfl | ⟨front, separator, rfl, isSep⟩
    · exact safe
    · rw [List.append_assoc, List.singleton_append]
      exact (safe_append_cons isSep).mpr ⟨((safe_append_cons isSep).mp buffered).1, safe⟩
  unfold addSeparator
  split
  · rw [List.append_assoc, List.singleton_append]
    exact (safe_append_cons (isSepAny_separator platform)).mpr ⟨buffered, safe⟩
  · rename_i kept
    by_cases atStart : buffer.length = start
    · exact after (opened atStart)
    · refine after ?_
      rcases List.eq_nil_or_concat buffer with rfl | ⟨front, last, rfl⟩
      · exact Or.inl rfl
      · refine Or.inr ⟨front, last, List.concat_eq_append, ?_⟩
        simp only [List.concat_eq_append, List.getLast?_append, List.getLast?_singleton,
          Option.some_or, Option.map_some, Option.getD_some, Bool.and_eq_true, decide_eq_true_eq,
          Bool.not_eq_true', not_and, Bool.not_eq_false] at kept
        refine isSepAny_of_isSeparator (kept ?_)
        simpa using atStart

theorem mem_of_startsElement {isSeparator : UInt8 → Bool} {element path : List UInt8}
    (starts : startsElement isSeparator element path = true)
    (noSeparator : ∀ c ∈ element, isSeparator c = false) : element ∈ path.splitOnP isSeparator := by
  unfold startsElement at starts
  rw [Bool.and_eq_true, List.isPrefixOf_iff_prefix] at starts
  obtain ⟨⟨rest, rfl⟩, ends⟩ := starts
  rw [List.drop_left] at ends
  cases rest with
  | nil =>
      rw [List.append_nil, List.splitOnP_eq_singleton noSeparator]
      exact List.mem_cons_self
  | cons separator rest =>
      rw [List.splitOnP_append_cons_of_forall_mem noSeparator separator ends]
      exact List.mem_cons_self

theorem startsElement_takeWhile (isSeparator : UInt8 → Bool) (path : List UInt8) :
    startsElement isSeparator (path.takeWhile (!isSeparator ·)) path = true := by
  unfold startsElement
  rw [Bool.and_eq_true, List.isPrefixOf_iff_prefix]
  refine ⟨List.takeWhile_prefix _, ?_⟩
  rcases splitOnP_cases (p := isSeparator) path with
    ⟨_, all, _⟩ | ⟨separator, rest, isSep, _, isPath, _⟩
  · rw [all, List.drop_length]
    rfl
  · have dropped : path.drop (path.takeWhile (!isSeparator ·)).length = separator :: rest := by
      conv =>
        lhs
        arg 2
        rw [isPath]
      rw [List.drop_left]
    rw [dropped]
    exact isSep

theorem safeElements_dropWhile {platform : Platform} {path : List UInt8}
    (safe : SafeElements platform path) :
    SafeElements platform (path.dropWhile (!platform.isSeparator ·)) := by
  rcases splitOnP_cases (p := platform.isSeparator) path with
    ⟨dropped, _, _⟩ | ⟨separator, rest, isSep, dropped, _, _⟩
  · rw [dropped]
    exact eachPiece_nil (Or.inr safe_nil)
  · rw [dropped]
    have later := ((eachPiece_iff path (Or.inr safe_nil)).mp safe).2
    rw [dropped] at later
    exact (eachPiece_cons isSep (Or.inr safe_nil)).mpr later

theorem not_startsElement_of_safe {platform : Platform} {path : List UInt8}
    (safe : SafeElements platform path) :
    startsElement platform.isSeparator [0x2e, 0x2e] path ≠ true := by
  intro starts
  have dot : platform.isSeparator 0x2e = false := by
    cases platform with
    | loose => decide
    | windows => decide
    | posix => decide
  have noSeparator : ∀ c ∈ [(0x2e : UInt8), 0x2e], platform.isSeparator c = false := by
    intro c isIn
    simp only [List.mem_cons, List.not_mem_nil, or_false, or_self] at isIn
    rw [isIn]
    exact dot
  rcases safe _ (mem_of_startsElement starts noSeparator) with isDot | isSafe
  · cases isDot
  · have valid := isSafe [0x2e, 0x2e] (by decide)
    revert valid
    decide +kernel

theorem dropWhile_of_startsElement {isSeparator : UInt8 → Bool} {c d : UInt8} {rest : List UInt8}
    (starts : startsElement isSeparator [d] (c :: rest) = true) :
    rest.dropWhile (!isSeparator ·) = rest := by
  unfold startsElement at starts
  rw [Bool.and_eq_true] at starts
  have ends := starts.2
  cases rest with
  | nil => rfl
  | cons separator rest =>
      have isSep : isSeparator separator = true := ends
      rw [List.dropWhile_cons_of_neg (by simp [isSep])]

theorem addSeparator_extends (isSeparator : UInt8 → Bool) (separator : UInt8) (start : ℕ)
    (buffer : List UInt8) : buffer <+: addSeparator isSeparator separator start buffer := by
  unfold addSeparator
  split
  · exact List.prefix_append _ _
  · exact List.prefix_refl _

/-- Without `..` among its elements a path only loses elements, and the output only grows. -/
theorem normalizeElements_safe {platform : Platform} {allowAboveRoot : Bool} {start mark : ℕ}
    {path buffer : List UInt8} (safe : SafeElements platform path) (buffered : Safe buffer)
    (long : start ≤ buffer.length) (opened : buffer.length = start → EndsOpen buffer) :
    Safe (normalizeElements platform.isSeparator platform.separator allowAboveRoot start path
        buffer mark) ∧
      buffer <+: normalizeElements platform.isSeparator platform.separator allowAboveRoot start path
        buffer mark := by
  fun_induction normalizeElements platform.isSeparator platform.separator allowAboveRoot start path
    buffer mark with
  | case1 => exact ⟨buffered, List.prefix_refl _⟩
  | case2 buffer mark c rest isSep ih =>
      exact ih ((eachPiece_cons isSep (Or.inr safe_nil)).mp safe) buffered long opened
  | case3 buffer mark c rest notSep isDot ih =>
      refine ih ?_ buffered long opened
      have remaining := safeElements_dropWhile safe
      rw [List.dropWhile_cons_of_pos (p := (!platform.isSeparator ·)) (by simpa using notSep),
        dropWhile_of_startsElement isDot] at remaining
      exact remaining
  | case4 buffer mark c rest notSep notDot isDots above ih =>
      exact absurd isDots (not_startsElement_of_safe safe)
  | case5 buffer mark c rest notSep notDot isDots above allowed after ih =>
      exact absurd isDots (not_startsElement_of_safe safe)
  | case6 buffer mark c rest notSep notDot isDots above allowed ih =>
      exact absurd isDots (not_startsElement_of_safe safe)
  | case7 buffer mark c rest notSep notDot notDots ih =>
      have keep : (!platform.isSeparator c) = true := by simpa using notSep
      have isElement := startsElement_takeWhile platform.isSeparator (c :: rest)
      rw [List.takeWhile_cons_of_pos (p := (!platform.isSeparator ·)) keep] at isElement
      have element : Safe (c :: rest.takeWhile (!platform.isSeparator ·)) := by
        refine (safe _ (mem_of_startsElement isElement ?_)).resolve_left fun isDot => ?_
        · intro d isIn
          rw [← List.takeWhile_cons_of_pos (p := (!platform.isSeparator ·)) keep] at isIn
          simpa using List.all_eq_true.mp List.all_takeWhile d isIn
        · rw [isDot] at isElement
          exact notDot isElement
      have remaining := safeElements_dropWhile safe
      rw [List.dropWhile_cons_of_pos (p := (!platform.isSeparator ·)) keep] at remaining
      have longer : start < (addSeparator platform.isSeparator platform.separator start buffer ++
          c :: rest.takeWhile (!platform.isSeparator ·)).length := by
        have grown := (addSeparator_extends platform.isSeparator platform.separator start
          buffer).length_le
        rw [List.length_append, List.length_cons]
        omega
      obtain ⟨isSafe, extends_⟩ := ih remaining (addSeparator_safe buffered opened element)
        (Nat.le_of_lt longer) fun atStart => absurd atStart (Nat.ne_of_gt longer)
      refine ⟨isSafe, List.IsPrefix.trans ?_ extends_⟩
      exact (addSeparator_extends _ _ start buffer).trans (List.prefix_append _ _)

/-! ### Joined paths -/

/-- The elements of a package path: a root, a target that starts with `./`, and what is left
of a specifier. -/
theorem safeElements_joined (platform : Platform) {rest tail : List UInt8} (safe : Safe rest)
    (tailSafe : tail = [] ∨ ∃ subpath, tail = platform.separator :: subpath ∧ Safe subpath) :
    SafeElements platform
      (0x2f :: platform.separator :: 0x2e :: 0x2f :: (rest ++ tail)) := by
  have slash : platform.isSeparator 0x2f = true := by
    cases platform with
    | loose => decide
    | windows => decide
    | posix => decide
  have empty : ([] : List UInt8) = [0x2e] ∨ Safe [] := Or.inr safe_nil
  refine (eachPiece_cons slash empty).mpr ?_
  refine (eachPiece_cons (isSeparator_separator platform) empty).mpr ?_
  have dot : SafeElements platform ([0x2e] ++ 0x2f :: (rest ++ tail)) := by
    refine (eachPiece_append_cons slash).mpr ⟨?_, ?_⟩
    · intro element isIn
      have single : [(0x2e : UInt8)].splitOnP platform.isSeparator = [[0x2e]] := by
        cases platform with
        | loose => decide
        | windows => decide
        | posix => decide
      rw [single, List.mem_singleton] at isIn
      exact Or.inl isIn
    · rcases tailSafe with rfl | ⟨subpath, rfl, subpathSafe⟩
      · rw [List.append_nil]
        exact safeElements_of_safe safe
      · exact (eachPiece_append_cons (isSeparator_separator platform)).mpr
          ⟨safeElements_of_safe safe, safeElements_of_safe subpathSafe⟩
  exact dot

def Rooted (path : List UInt8) : Prop :=
  ∃ separator rest, path = separator :: rest ∧ isSepAny separator = true

theorem windowsVolumeNameLen_joined (rest : List UInt8) :
    windowsVolumeNameLen (0x2f :: 0x5c :: 0x2e :: rest) = (0, 0) := by
  unfold windowsVolumeNameLen
  simp

theorem windowsStart_joined (rest : List UInt8) :
    windowsStart (0x2f :: 0x5c :: 0x2e :: rest) = ([0x5c], 1, 1) := by
  unfold windowsStart
  rw [windowsVolumeNameLen_joined]
  simp [isSepAny]

theorem safe_concat {path : List UInt8} (safe : Safe path) {separator : UInt8}
    (isSep : isSepAny separator = true) : Safe (path ++ [separator]) :=
  (safe_append_cons isSep).mpr ⟨safe, safe_nil⟩

theorem normalizeStringGeneric_windows {rest : List UInt8}
    (safe : SafeElements .windows (0x2f :: 0x5c :: 0x2e :: rest)) :
    Safe (normalizeStringGeneric .windows false (0x2f :: 0x5c :: 0x2e :: rest)) ∧
      Rooted (normalizeStringGeneric .windows false (0x2f :: 0x5c :: 0x2e :: rest)) := by
  have later : SafeElements .windows (0x5c :: 0x2e :: rest) :=
    (eachPiece_cons (by decide) (Or.inr safe_nil)).mp safe
  have start : Safe [0x5c] := (safe_cons (by decide)).mpr safe_nil
  obtain ⟨isSafe, extends_⟩ : Safe (normalizeElements _ _ false 1 _ [0x5c] 1) ∧ _ :=
    normalizeElements_safe later start (Nat.le_refl 1) fun _ => Or.inr ⟨[], 0x5c, rfl, by decide⟩
  obtain ⟨tail, isTail⟩ := extends_
  unfold normalizeStringGeneric
  rw [windowsStart_joined, windowsVolumeNameLen_joined]
  simp only [reduceIte, Nat.lt_irrefl, decide_false, Bool.false_and, Bool.or_self, Bool.false_eq_true,
    List.drop_succ_cons, List.drop_zero, List.length_singleton]
  rw [← isTail] at isSafe ⊢
  have backslash : isSepAny 0x5c = true := by decide
  split
  · exact ⟨safe_concat isSafe backslash, 0x5c, _, rfl, backslash⟩
  · exact ⟨isSafe, 0x5c, tail, rfl, backslash⟩

theorem normalizeStringNode_joined {platform : Platform} {rest : List UInt8}
    (safe : SafeElements platform (0x2f :: platform.separator :: 0x2e :: rest)) :
    Safe (normalizeStringNode platform (0x2f :: platform.separator :: 0x2e :: rest)) ∧
      Rooted (normalizeStringNode platform (0x2f :: platform.separator :: 0x2e :: rest)) := by
  have isSep := isSepAny_separator platform
  have absolute : platform.isAbsolute (0x2f :: platform.separator :: 0x2e :: rest) = true := by
    cases platform with
    | loose => rfl
    | windows => rfl
    | posix => rfl
  have closed (normalized : List UInt8) (isSafe : Safe normalized) (condition : Bool) :
      Safe (if condition then normalized ++ [platform.separator] else normalized) := by
    split
    · exact safe_concat isSafe isSep
    · exact isSafe
  unfold normalizeStringNode
  rw [absolute]
  simp only [List.isEmpty_cons, Bool.false_eq_true, reduceIte, Bool.not_true, Bool.true_and,
    decide_eq_true_eq]
  by_cases isWindows : platform = .windows
  · subst isWindows
    obtain ⟨isSafe, separator, tail, isNormalized, isHead⟩ := normalizeStringGeneric_windows safe
    have isNormalized : normalizeStringGeneric .windows false
        (0x2f :: Platform.windows.separator :: 0x2e :: rest) = separator :: tail := isNormalized
    rw [isNormalized]
    have isSafe : Safe (separator :: tail) := isNormalized ▸ isSafe
    simp only [List.isEmpty_cons, Bool.false_eq_true, reduceIte, ne_eq, not_true]
    refine ⟨closed _ isSafe _, ?_⟩
    split
    · exact ⟨separator, _, rfl, isHead⟩
    · exact ⟨separator, _, rfl, isHead⟩
  · have isSafe : Safe (normalizeStringGeneric platform false
        (0x2f :: platform.separator :: 0x2e :: rest)) := by
      unfold normalizeStringGeneric
      rw [if_neg isWindows]
      exact (normalizeElements_safe safe safe_nil (Nat.zero_le _) fun _ => Or.inl rfl).1
    split
    · exact ⟨(safe_cons isSep).mpr safe_nil, _, _, rfl, isSep⟩
    · exact ⟨(safe_cons isSep).mpr (closed _ isSafe _), _, _, rfl, isSep⟩

theorem joinStringBuf_two (platform : Platform) (root text : List UInt8) :
    joinStringBuf platform [root, text, []] = joinStringBuf platform [root, text] := by
  have parts : [root, text, []] = [root, text] ++ [[]] := rfl
  unfold joinStringBuf
  have none : [([] : List UInt8)].filter (fun part => !part.isEmpty) = [] := rfl
  rw [parts, List.filter_append, none, List.append_nil]

theorem joinStringBuf_joined (platform : Platform) {rest subpath : List UInt8} (safe : Safe rest)
    (subpathSafe : Safe subpath) :
    Safe (joinStringBuf platform [ascii "/", 0x2e :: 0x2f :: rest, subpath]) ∧
      Rooted (joinStringBuf platform [ascii "/", 0x2e :: 0x2f :: rest]) := by
  have root : ascii "/" = [0x2f] := by decide
  have two : joinStringBuf platform [ascii "/", 0x2e :: 0x2f :: rest] =
      normalizeStringNode platform (0x2f :: platform.separator :: 0x2e :: 0x2f :: rest) := by
    unfold joinStringBuf
    rw [root]
    simp [List.intercalate]
  have elements := safeElements_joined platform safe (Or.inl rfl)
  rw [List.append_nil] at elements
  have resolved := normalizeStringNode_joined elements
  rw [two]
  refine ⟨?_, resolved.2⟩
  cases subpath with
  | nil =>
      rw [joinStringBuf_two, two]
      exact resolved.1
  | cons c more =>
      have three : joinStringBuf platform [ascii "/", 0x2e :: 0x2f :: rest, c :: more] =
          normalizeStringNode platform (0x2f :: platform.separator :: 0x2e :: 0x2f ::
            (rest ++ platform.separator :: c :: more)) := by
        unfold joinStringBuf
        rw [root]
        simp [List.intercalate]
      rw [three]
      exact (normalizeStringNode_joined (safeElements_joined platform safe
        (Or.inr ⟨c :: more, rfl, subpathSafe⟩))).1

/-! ### Decoding -/

def FoundSafe (result : Resolution) : Prop :=
  result.status.isFound = true → Safe result.path

def Confined (path : List UInt8) : Prop :=
  ∀ segment ∈ path.splitOnP isSepAny, segment.map toAsciiLowercase ∉ invalidSegments

theorem decodeSegment_plain {segment : List UInt8} (plain : (0x25 : UInt8) ∉ segment) :
    decodeSegment segment = segment := by
  induction segment with
  | nil => rw [decodeSegment]
  | cons c rest ih =>
      rw [List.mem_cons, not_or] at plain
      have next : nextByte c rest = (c, rest) := if_neg fun isPercent => plain.1 isPercent.symm
      rw [decodeSegment_cons, next, ih plain.2]

theorem decodeSegment_escape {high low byte : UInt8} (isByte : hexPairValue high low = some byte)
    (rest : List UInt8) :
    decodeSegment (0x25 :: high :: low :: rest) = byte :: decodeSegment rest := by
  have next : nextByte 0x25 (high :: low :: rest) = (byte, rest) := by
    unfold nextByte
    rw [if_pos rfl]
    dsimp only
    rw [isByte]
  rw [decodeSegment_cons, next]

def hexDigits : List UInt8 :=
  ((List.range 256).map UInt8.ofNat).filter fun c => (hexDigitValue c).isSome

theorem mem_hexDigits {c : UInt8} (isDigit : (hexDigitValue c).isSome = true) : c ∈ hexDigits := by
  refine List.mem_filter.mpr ⟨List.mem_map.mpr ⟨c.toNat, ?_, UInt8.ofNat_toNat⟩, isDigit⟩
  exact List.mem_range.mpr c.toNat_lt

theorem mem_hexDigits_of_pair {high low byte : UInt8} (isByte : hexPairValue high low = some byte) :
    high ∈ hexDigits ∧ low ∈ hexDigits := by
  unfold hexPairValue at isByte
  split at isByte
  · rename_i _ _ isHigh isLow
    exact ⟨mem_hexDigits (Option.isSome_of_eq_some isHigh),
      mem_hexDigits (Option.isSome_of_eq_some isLow)⟩
  · cases isByte

theorem separator_escapes : ∀ high ∈ hexDigits, ∀ low ∈ hexDigits,
    isSepAny high = false ∧ isSepAny low = false ∧
      ((hexPairValue high low).any isSepAny = true → [0x25, high, low] ∈ invalidPercentChars) := by
  decide +kernel

theorem containsText_of_cons {needle rest : List UInt8} {c : UInt8}
    (absent : containsText needle (c :: rest) = false) :
    needle.isPrefixOf (c :: rest) = false ∧ containsText needle rest = false := by
  unfold containsText at absent
  exact Bool.or_eq_false_iff.mp absent

theorem splitOnP_cons_plain {c : UInt8} (plain : isSepAny c = false) (rest : List UInt8) :
    (c :: rest).splitOnP isSepAny = (rest.splitOnP isSepAny).modifyHead (c :: ·) := by
  rw [List.splitOnP_cons_eq_if_modifyHead, if_neg (by simp [plain])]

theorem map_modifyHead {change decode change' : List UInt8 → List UInt8}
    (same : ∀ segment, decode (change segment) = change' (decode segment))
    {segments : List (List UInt8)} :
    (segments.modifyHead change).map decode = (segments.map decode).modifyHead change' := by
  cases segments with
  | nil => rfl
  | cons segment rest => exact congrArg (· :: rest.map decode) (same segment)

theorem splitOnP_decodePercent {path decoded : List UInt8}
    (isDecoded : decodePercent path = some decoded)
    (absent : ∀ encoded ∈ invalidPercentChars, containsText encoded path = false) :
    decoded.splitOnP isSepAny = (path.splitOnP isSepAny).map decodeSegment := by
  fun_induction decodePercent path generalizing decoded with
  | case1 =>
      cases isDecoded
      rw [List.splitOnP_nil, List.map_singleton, decodeSegment]
  | case2 high low rest byte decodedRest isRest isByte ih =>
      cases isDecoded
      obtain ⟨isHigh, isLow⟩ := mem_hexDigits_of_pair isByte
      obtain ⟨highPlain, lowPlain, escapes⟩ := separator_escapes high isHigh low isLow
      have bytePlain : isSepAny byte = false := by
        rw [isByte, Option.any_some] at escapes
        cases isSep : isSepAny byte with
        | false => rfl
        | true =>
            have starts := (containsText_of_cons (absent _ (escapes isSep))).1
            simp [List.isPrefixOf] at starts
      have restAbsent : ∀ encoded ∈ invalidPercentChars, containsText encoded rest = false :=
        fun encoded isIn =>
          (containsText_of_cons (containsText_of_cons (containsText_of_cons
            (absent encoded isIn)).2).2).2
      rw [splitOnP_cons_plain bytePlain, ih isRest restAbsent,
        splitOnP_cons_plain (show isSepAny 0x25 = false by decide), splitOnP_cons_plain highPlain,
        splitOnP_cons_plain lowPlain, List.modifyHead_modifyHead, List.modifyHead_modifyHead]
      exact (map_modifyHead fun segment => decodeSegment_escape isByte segment).symm
  | case3 => cases isDecoded
  | case4 => cases isDecoded
  | case5 c rest notPercent ih =>
      obtain ⟨decodedRest, isRest, rfl⟩ := Option.map_eq_some_iff.mp isDecoded
      have restAbsent : ∀ encoded ∈ invalidPercentChars, containsText encoded rest = false :=
        fun encoded isIn => (containsText_of_cons (absent encoded isIn)).2
      have ih := ih isRest restAbsent
      by_cases isSep : isSepAny c = true
      · rw [List.splitOnP_cons_eq_if_modifyHead, List.splitOnP_cons_eq_if_modifyHead, if_pos isSep,
          if_pos isSep, ih, List.map_cons, decodeSegment]
      · have plain : isSepAny c = false := by simpa using isSep
        rw [splitOnP_cons_plain plain, splitOnP_cons_plain plain, ih]
        refine (map_modifyHead fun segment => ?_).symm
        have next : nextByte c segment = (c, segment) := if_neg notPercent
        rw [decodeSegment_cons, next]

theorem not_mem_of_safe {path : List UInt8} (safe : Safe path) {segment : List UInt8}
    (isIn : segment ∈ path.splitOnP isSepAny) :
    (decodeSegment segment).map toAsciiLowercase ∉ invalidSegments := by
  have valid : isInvalidSegment segment = false := safe segment isIn
  rw [isInvalidSegment_eq] at valid
  intro isInvalid
  rw [List.contains_iff_mem.mpr isInvalid] at valid
  cases valid

theorem decodePercent_of_decodeInto {size : ℕ} {input decoded : List UInt8}
    (isDecoded : decodeInto size input = some decoded) : decodePercent input = some decoded := by
  unfold decodeInto at isDecoded
  split at isDecoded
  · rename_i isSome
    split at isDecoded
    · cases isDecoded
      exact isSome
    · cases isDecoded
  · cases isDecoded

theorem finalize_confined (module : ESModule) {result : Resolution} (safe : FoundSafe result)
    (found : (finalize module result).status.isFound = true) :
    Confined (finalize module result).path := by
  unfold finalize at found ⊢
  split at found
  · rename_i notFound
    rw [found] at notFound
    cases notFound
  · rename_i isFound
    have isSafe : Safe result.path := safe (by simpa using isFound)
    rw [if_neg isFound]
    split at found
    · rename_i plain
      rw [if_pos plain]
      split at found
      · cases found
      · rename_i notDirectory
        rw [if_neg notDirectory]
        intro segment isIn
        have valid := not_mem_of_safe isSafe isIn
        rw [decodeSegment_plain] at valid
        · exact valid
        · intro isPercent
          have isPercent := mem_of_mem_splitOnP isIn isPercent
          rw [List.contains_iff_mem.mpr isPercent] at plain
          cases plain
    · rename_i encoded
      rw [if_neg encoded]
      split at found
      · cases found
      · rename_i allowed
        rw [if_neg allowed]
        split at found
        · cases found
        · rename_i decoded isDecoded
          split at found
          · cases found
          · rename_i notDirectory
            rw [if_neg notDirectory]
            have absent : ∀ encoded ∈ invalidPercentChars,
                containsText encoded result.path = false := by
              simpa using allowed
            intro segment isIn
            rw [splitOnP_decodePercent (decodePercent_of_decodeInto isDecoded) absent] at isIn
            obtain ⟨raw, isRaw, rfl⟩ := List.mem_map.mp isIn
            exact not_mem_of_safe isSafe isRaw

/-! ### Resolutions -/

theorem foundSafe_of_status {result : Resolution} (notFound : result.status.isFound = false) :
    FoundSafe result := by
  intro found
  rw [notFound] at found
  cases found

theorem replaceStars_rooted {path subpath : List UInt8} (rooted : Rooted path) :
    Rooted (replaceStars path subpath) := by
  obtain ⟨separator, rest, rfl, isSep⟩ := rooted
  have notStar : separator ≠ 0x2a := by
    rintro rfl
    revert isSep
    decide
  refine ⟨separator, replaceStars rest subpath, ?_, isSep⟩
  unfold replaceStars
  rw [List.flatMap_cons, if_neg notStar, List.singleton_append]

theorem safe_of_rooted {path : List UInt8} (rooted : Rooted path)
    (passes : findInvalidSegment path = none) : Safe path := by
  obtain ⟨head, tail, isPath, isHead⟩ := rooted
  obtain ⟨first, separator, rest, isSplit, isSep, plain, safe⟩ := findInvalidSegment_eq_none passes
  cases first with
  | nil =>
      rw [isSplit, List.nil_append]
      exact (safe_cons isSep).mpr safe
  | cons c more =>
      rw [isSplit, List.cons_append, List.cons.injEq] at isPath
      rw [List.all_cons, isPath.1, isHead] at plain
      cases plain

theorem resolveBareTarget_notFound (module : ESModule) (pattern : Bool) (text subpath : List UInt8)
    (options : ResolveTargetOptions) :
    (resolveBareTarget module pattern text subpath options).status.isFound = false := by
  unfold resolveBareTarget
  split
  · split
    · split
      · rfl
      · rfl
    · rfl
  · rfl

theorem resolvePackageTarget_safe (module : ESModule) (pattern : Bool)
    {rest subpath : List UInt8} (safe : Safe rest) (subpathSafe : Safe subpath) :
    FoundSafe (resolvePackageTarget module pattern (ascii "/") (0x2e :: 0x2f :: rest) subpath
      (joinStringBuf module.platform [ascii "/", 0x2e :: 0x2f :: rest])) := by
  obtain ⟨joined, rooted⟩ := joinStringBuf_joined module.platform safe subpathSafe
  unfold resolvePackageTarget
  split
  · exact foundSafe_of_status rfl
  · split
    · dsimp only
      split
      · exact foundSafe_of_status rfl
      · split
        · exact foundSafe_of_status rfl
        · rename_i passes
          exact fun _ => safe_of_rooted (replaceStars_rooted rooted) (by simpa using passes)
    · exact fun _ => joined

theorem resolveString_safe (module : ESModule) (pattern : Bool) (text subpath : List UInt8)
    (options : ResolveTargetOptions) :
    FoundSafe (resolveString module pattern (ascii "/") text subpath options) := by
  unfold resolveString
  split
  · exact foundSafe_of_status rfl
  · split
    · exact foundSafe_of_status rfl
    · split
      · exact foundSafe_of_status rfl
      · rename_i subpathPasses
        split
        · exact foundSafe_of_status (resolveBareTarget_notFound module pattern text subpath options)
        · rename_i relative
          split
          · exact foundSafe_of_status rfl
          · rename_i textPasses
            have subpathSafe : Safe subpath := by
              cases subpath with
              | nil => exact safe_nil
              | cons c more =>
                  exact findInvalidSubpathSegment_eq_none (by simpa using subpathPasses)
            have isRelative : [0x2e, 0x2f] <+: text := by
              have dots : ascii "./" = [0x2e, 0x2f] := by decide
              rw [← dots, ← List.isPrefixOf_iff_prefix]
              simpa using relative
            obtain ⟨rest, rfl⟩ := isRelative
            have afterDot : findInvalidSegment (0x2e :: 0x2f :: rest) =
                findInvalidSubpathSegment rest := rfl
            have passes : findInvalidSegment (0x2e :: 0x2f :: rest) = none := by
              simpa using textPasses
            rw [afterDot] at passes
            exact resolvePackageTarget_safe module pattern
              (findInvalidSubpathSegment_eq_none passes) subpathSafe

mutual

theorem resolveTarget_safe (module : ESModule) (pattern : Bool) (subpath : List UInt8)
    (internal inArray : Bool) (depth : ℕ) (target : Entry) :
    FoundSafe (resolveTarget module pattern (ascii "/") subpath internal inArray depth target) := by
  cases target with
  | invalidJson =>
      unfold resolveTarget
      split
      · exact foundSafe_of_status rfl
      · exact foundSafe_of_status rfl
  | invalid rendered =>
      unfold resolveTarget
      split
      · exact foundSafe_of_status rfl
      · exact foundSafe_of_status rfl
  | null =>
      unfold resolveTarget
      split
      · exact foundSafe_of_status rfl
      · exact foundSafe_of_status rfl
  | string text =>
      unfold resolveTarget
      split
      · exact foundSafe_of_status rfl
      · exact resolveString_safe module pattern text subpath ⟨internal, inArray⟩
  | array items =>
      unfold resolveTarget
      split
      · exact foundSafe_of_status rfl
      · split
        · exact foundSafe_of_status rfl
        · exact resolveAlternatives_safe module pattern subpath internal (depth + 1) {}
            (foundSafe_of_status rfl) items
  | map list =>
      unfold resolveTarget
      split
      · exact foundSafe_of_status rfl
      · split
        · exact foundSafe_of_status rfl
        · exact resolveConditions_safe module pattern subpath internal inArray (depth + 1) list

theorem resolveConditions_safe (module : ESModule) (pattern : Bool) (subpath : List UInt8)
    (internal inArray : Bool) (depth : ℕ) (list : List (List UInt8 × Entry)) :
    FoundSafe
      (resolveConditions module pattern (ascii "/") subpath internal inArray depth list) := by
  match list with
  | [] =>
      unfold resolveConditions
      exact foundSafe_of_status rfl
  | (key, value) :: rest =>
      have later := resolveConditions_safe module pattern subpath internal inArray depth rest
      unfold resolveConditions
      split
      · dsimp only
        split
        · exact later
        · exact resolveTarget_safe module pattern subpath internal inArray depth value
      · exact later

theorem resolveAlternatives_safe (module : ESModule) (pattern : Bool) (subpath : List UInt8)
    (internal : Bool) (depth : ℕ) (lastException : Resolution) (safe : FoundSafe lastException)
    (items : List Entry) :
    FoundSafe (resolveAlternatives module pattern (ascii "/") subpath internal depth lastException
      items) := by
  match items with
  | [] =>
      unfold resolveAlternatives
      exact safe
  | target :: rest =>
      have isSafe := resolveTarget_safe module pattern subpath internal true depth target
      unfold resolveAlternatives
      dsimp only
      split
      · exact resolveAlternatives_safe module pattern subpath internal depth _ isSafe rest
      · split
        · exact resolveAlternatives_safe module pattern subpath internal depth lastException safe rest
        · exact isSafe

end

theorem attachFailureKey_safe {result : Resolution} (safe : FoundSafe result) (key : List UInt8) :
    FoundSafe (attachFailureKey result key) := by
  unfold attachFailureKey
  split
  · rename_i invalid
    have notFound : result.status.isFound = false := by
      rw [invalid]
      rfl
    split
    · exact foundSafe_of_status notFound
    · exact foundSafe_of_status notFound
    · exact safe
  · exact safe

theorem resolveImportsExports_safe (module : ESModule) (matchKey : List UInt8) (matchObj : Entry)
    (isImports : Bool) :
    FoundSafe (resolveImportsExports module matchKey matchObj isImports (ascii "/")) := by
  unfold resolveImportsExports
  split
  · exact attachFailureKey_safe (resolveTarget_safe module false [] isImports false 0 _) _
  · split
    · split
      · rename_i key value subpath _
        unfold resolveExpansion
        have attached := attachFailureKey_safe
          (resolveTarget_safe module (key.contains 0x2a) subpath isImports false 0 value) key
        dsimp only
        split
        · rename_i inexact
          intro _
          refine attached ?_
          rw [Bool.and_eq_true] at inexact
          unfold Status.isFound
          rw [inexact.2, Bool.true_or]
        · exact attached
      · exact foundSafe_of_status rfl
    · exact foundSafe_of_status rfl

theorem resolveExports_safe (module : ESModule) (subpath : List UInt8) (exports : Entry) :
    FoundSafe (resolveExports module (ascii "/") subpath exports) := by
  unfold resolveExports
  split
  · exact foundSafe_of_status rfl
  · split
    · unfold resolveMain
      split
      · split
        · exact foundSafe_of_status rfl
        · dsimp only
          split
          · exact attachFailureKey_safe (resolveTarget_safe module false [] false false 0 _) _
          · exact foundSafe_of_status rfl
      · exact foundSafe_of_status rfl
    · split
      · dsimp only
        split
        · exact resolveImportsExports_safe module subpath exports false
        · split
          · exact foundSafe_of_status rfl
          · exact foundSafe_of_status rfl
      · exact foundSafe_of_status rfl

/-- No specifier leads out of the package: a path that a resolution has found has no segment
`.`, `..` or `node_modules`. -/
theorem resolve_confined (module : ESModule) :
    (∀ subpath exports, (resolve module (ascii "/") subpath exports).status.isFound = true →
      Confined (resolve module (ascii "/") subpath exports).path) ∧
    ∀ specifier imports, (resolveImports module specifier imports).status.isFound = true →
      Confined (resolveImports module specifier imports).path := by
  constructor
  · intro subpath exports found
    exact finalize_confined module (resolveExports_safe module subpath exports) found
  · intro specifier imports found
    unfold resolveImports at found ⊢
    split at found
    · cases found
    · rename_i isMap
      rw [if_neg isMap]
      dsimp only at found ⊢
      split at found
      · cases found
      · rename_i isDefined
        rw [if_neg isDefined]
        exact finalize_confined module (resolveImportsExports_safe module specifier imports true) found

/-- A target with a wildcard, and a specifier with an encoded dot. -/
def wildcardExports : Entry :=
  .map [(ascii "./lib/*", .string (ascii "./dist/*.js"))]

theorem resolve_confined_wildcard :
    (resolve { conditions := fun _ => false } (ascii "/") (ascii "./lib/a%2eb") wildcardExports).path =
        ascii "/dist/a.b.js" ∧
      Confined (ascii "/dist/a.b.js") := by
  have isPath : (resolve { conditions := fun _ => false } (ascii "/") (ascii "./lib/a%2eb")
      wildcardExports).path = ascii "/dist/a.b.js" := by decide +kernel
  have confined := (resolve_confined { conditions := fun _ => false }).1 (ascii "./lib/a%2eb")
    wildcardExports (by decide +kernel)
  rw [isPath] at confined
  exact ⟨isPath, confined⟩

end Bun.Resolver
