/-
What the version parser accepts is printed in a form that it reads back.

The printed form is canonical, while the parser lets through prefixes, leading
zeros, tags without a hyphen and empty tags.  The texts that it stores never use
the byte that would end them early in the printed form.
-/

import Bun.Semver.TagParse

set_option autoImplicit false

namespace Bun.Semver

namespace Version

/-! ### Printed numbers -/

theorem underscore_notMem_of_isNumeric {text : List UInt8} (numeric : isNumeric text = true) :
    underscore ∉ text := by
  intro member
  unfold isNumeric at numeric
  rw [Bool.and_eq_true, List.all_eq_true] at numeric
  exact isAsciiDigit_ne_underscore (numeric.2 underscore member) rfl

theorem parseAscii_decimalText (n : UInt64) : parseAscii (decimalText n.toNat) = some n := by
  have numeric := decimalText_isNumeric n.toNat
  rw [parseAscii_eq _ (underscore_notMem_of_isNumeric numeric), decimalValue_decimalText,
    if_pos ⟨numeric, n.toNat_lt⟩, UInt64.ofNat_toNat]

/-! ### What the version parser stores -/

theorem setPart_tag (version : Partial) (partI : Nat) (number : Option UInt64) :
    (version.setPart partI number).tag = version.tag := by
  unfold Partial.setPart
  split
  · rfl
  · rfl
  · rfl

theorem skipDot_spec (cursor : ParseCursor) (rest : List UInt8) :
    (skipDot cursor rest).1.result = cursor.result ∧
      (skipDot cursor rest).1.i + (skipDot cursor rest).2.length = cursor.i + rest.length := by
  unfold skipDot
  split
  · split
    · rename_i after _
      refine ⟨rfl, ?_⟩
      rw [List.length_cons]
      change cursor.i + 1 + after.length = _
      omega
    · exact ⟨rfl, rfl⟩
  · exact ⟨rfl, rfl⟩

theorem takeNumber_tag (cursor : ParseCursor) (digits after : List UInt8) :
    (takeNumber cursor digits after).1.result.version.tag = cursor.result.version.tag := by
  dsimp only [takeNumber]
  split
  · rw [(skipDot_spec _ _).1]
    exact setPart_tag _ _ _
  · exact setPart_tag _ _ _

theorem takeNumber_i (cursor : ParseCursor) (digits after : List UInt8) :
    (takeNumber cursor digits after).1.i + (takeNumber cursor digits after).2.length =
      cursor.i + digits.length + after.length := by
  dsimp only [takeNumber]
  split
  · exact (skipDot_spec _ _).2
  · rfl

theorem meetWildcard_spec (cursor : ParseCursor) :
    (meetWildcard cursor).result.version = cursor.result.version ∧
      (meetWildcard cursor).i = cursor.i := by
  unfold meetWildcard
  split
  · split
    · exact ⟨rfl, rfl⟩
    · exact ⟨rfl, rfl⟩
    · exact ⟨rfl, rfl⟩
    · exact ⟨rfl, rfl⟩
  · exact ⟨rfl, rfl⟩

theorem takeWhile_length_add (p : UInt8 → Bool) (text : List UInt8) :
    (text.takeWhile p).length + (text.dropWhile p).length = text.length := by
  rw [← List.length_append, List.takeWhile_append_dropWhile]

/-- The stored tag consists of tag characters, and a tag that ends with the input has no
`+` in its prerelease. -/
def TagSound (tag : Tag) (whole : Prop) : Prop :=
  tag.AsParsed ∧ (whole → plus ∉ tag.pre)

theorem tagSound_empty {tag : Tag} (untagged : tag = {}) (whole : Prop) : TagSound tag whole := by
  rw [untagged]
  exact ⟨⟨rfl, rfl⟩, fun _ => List.not_mem_nil⟩

theorem tagSound_parse (input : List UInt8) (count i : Nat) :
    TagSound (Tag.parseWithPreCount input count).tag
      (i + (Tag.parseWithPreCount input count).len = i + input.length) :=
  ⟨Tag.parseWithPreCount_asParsed input count,
    fun whole => Tag.parseWithPreCount_plusFree input count (Nat.add_left_cancel whole)⟩

theorem parseLoop_tagSound (cursor : ParseCursor) (input : List UInt8)
    (untagged : cursor.result.version.tag = {}) :
    TagSound (parseLoop cursor input).result.version.tag
      ((parseLoop cursor input).i = cursor.i + input.length) := by
  fun_induction parseLoop cursor input with
  | case1 | case2 | case3 | case4 | case7 | case8 | case12 => exact tagSound_empty untagged _
  | case5 cursor c rest _ _ _ digits after _ _ ih =>
      have moved : (takeNumber cursor digits after).1.i + (takeNumber cursor digits after).2.length =
          cursor.i + (c :: rest).length := by
        rw [takeNumber_i, Nat.add_assoc, takeWhile_length_add]
      rw [← moved]
      exact ih ((takeNumber_tag cursor digits after).trans untagged)
  | case6 cursor c rest _ _ _ digits after _ ih =>
      have moved : (pass cursor digits).i + after.length = cursor.i + (c :: rest).length := by
        rw [← takeWhile_length_add isAsciiDigit (c :: rest), ← Nat.add_assoc]
        rfl
      rw [← moved]
      exact ih untagged
  | case9 cursor c rest => exact tagSound_parse (c :: rest) 0 cursor.i
  | case10 cursor c rest _ _ _ _ _ _ run valid read ih =>
      have step := skipDot_spec (pass { cursor with result := { cursor.result with valid } } run)
        ((c :: rest).dropWhile isWildcardChar)
      have moved : (meetWildcard read.1).i + read.2.length = cursor.i + (c :: rest).length := by
        rw [(meetWildcard_spec read.1).2, step.2,
          ← takeWhile_length_add isWildcardChar (c :: rest), ← Nat.add_assoc]
        rfl
      rw [← moved]
      refine ih ?_
      rw [(meetWildcard_spec read.1).1, step.1]
      exact untagged
  | case11 cursor c rest => exact tagSound_parse (c :: rest) 1 cursor.i

theorem finish_version (cursor : ParseCursor) :
    (finish cursor).version = cursor.result.version ∧ (finish cursor).len = cursor.i := by
  dsimp only [finish]
  split
  · split
    · exact ⟨rfl, rfl⟩
    · exact ⟨rfl, rfl⟩
    · exact ⟨rfl, rfl⟩
    · exact ⟨rfl, rfl⟩
  · exact ⟨rfl, rfl⟩

theorem parse_tagSound (input : List UInt8) :
    TagSound (parse input).version.tag ((parse input).len = input.length) := by
  dsimp only [parse]
  split
  · exact tagSound_empty rfl _
  · split
    · exact tagSound_empty rfl _
    · have loop := parseLoop_tagSound
        { i := (input.takeWhile isLeading).length, previous := (input.takeWhile isLeading).getLast? }
        (input.dropWhile isLeading) rfl
      rw [(finish_version _).1, (finish_version _).2, ← takeWhile_length_add isLeading input]
      exact loop

/-! ### Reading the printed form -/

theorem fmt_eq (version : Version) :
    version.fmt = decimalText version.major.toNat ++ dot :: (decimalText version.minor.toNat ++
      dot :: (decimalText version.patch.toNat ++ version.tag.text)) :=
  rfl

theorem parseLoop_number (cursor : ParseCursor) (digits rest : List UInt8) (number : UInt64)
    (numeric : isNumeric digits = true) (ends : rest.takeWhile isAsciiDigit = [])
    (few : cursor.partI < 3) (reads : parseAscii digits = some number) :
    parseLoop cursor (digits ++ rest) =
      parseLoop (takeNumber cursor digits rest).1 (takeNumber cursor digits rest).2 := by
  unfold isNumeric at numeric
  rw [Bool.and_eq_true, List.all_eq_true] at numeric
  have run : (digits ++ rest).takeWhile isAsciiDigit = digits := by
    rw [List.takeWhile_append_of_pos numeric.2, ends, List.append_nil]
  have after : (digits ++ rest).dropWhile isAsciiDigit = rest := by
    rw [List.dropWhile_append_of_pos numeric.2]
    have whole := List.takeWhile_append_dropWhile (p := isAsciiDigit) (l := rest)
    rw [ends, List.nil_append] at whole
    exact whole
  cases digits with
  | nil => exact absurd numeric.1 (by decide)
  | cons c digits =>
      have digit := numeric.2 c List.mem_cons_self
      have notSpace : ¬ c = space := by
        rintro rfl
        exact absurd digit (by decide)
      have notStop : ¬ isStop c = true := by
        intro stop
        unfold isStop at stop
        simp only [Bool.or_eq_true, beq_iff_eq] at stop
        rcases stop with ((((rfl | rfl) | rfl) | rfl) | rfl) | rfl
        all_goals exact absurd digit (by decide)
      have read : ¬ ((parseVersionNumber (c :: digits)).isNone = true ∧
          cursor.result.wildcard = .none) := by
        unfold parseVersionNumber
        rw [reads]
        exact fun both => Bool.false_ne_true both.1
      rw [List.cons_append] at run after ⊢
      rw [parseLoop]
      simp only [if_neg notSpace, if_neg notStop, if_pos digit, run, after, if_pos few, if_neg read]

theorem dot_ends (rest : List UInt8) : (dot :: rest).takeWhile isAsciiDigit = [] :=
  List.takeWhile_cons_of_neg (by decide)

theorem parseLoop_number_dot (cursor : ParseCursor) (digits rest : List UInt8) (number : UInt64)
    (numeric : isNumeric digits = true) (reads : parseAscii digits = some number)
    (more : cursor.partI < 2) :
    parseLoop cursor (digits ++ dot :: rest) =
      parseLoop { result := { cursor.result with
                    version := cursor.result.version.setPart cursor.partI (some number) }
                  partI := cursor.partI + 1
                  i := cursor.i + digits.length + 1
                  previous := some dot } rest := by
  have notLast : cursor.partI + 1 ≠ 3 := by omega
  rw [parseLoop_number cursor digits _ number numeric (dot_ends rest) (by omega) reads]
  simp only [takeNumber, parseVersionNumber, pass, skipDot, reads, if_pos notLast, if_true,
    Option.isSome_some, Bool.and_true]

theorem parseLoop_number_last (cursor : ParseCursor) (digits rest : List UInt8) (number : UInt64)
    (numeric : isNumeric digits = true) (ends : rest.takeWhile isAsciiDigit = [])
    (reads : parseAscii digits = some number) (last : cursor.partI = 2) :
    parseLoop cursor (digits ++ rest) =
      parseLoop { result := { cursor.result with
                    version := cursor.result.version.setPart 2 (some number) }
                  partI := 3
                  i := cursor.i + digits.length
                  previous := digits.getLast? } rest := by
  rw [parseLoop_number cursor digits _ number numeric ends (by omega) reads]
  simp only [takeNumber, parseVersionNumber, pass, reads, last, ne_eq, not_true_eq_false, if_false,
    Nat.reduceAdd, Option.isSome_some, Bool.and_true]

theorem parseLoop_marked (cursor : ParseCursor) (c : UInt8) (rest : List UInt8)
    (marks : c = hyphen ∨ c = plus) (full : cursor.partI = 3) :
    parseLoop cursor (c :: rest) = { cursor with
      result := { cursor.result with
        version := { cursor.result.version with tag := (Tag.parse (c :: rest)).tag } }
      i := cursor.i + (Tag.parse (c :: rest)).len } := by
  have enough : ¬ (cursor.partI < (if c = plus then 1 else 2) ∧
      cursor.result.wildcard = .none) := by
    rw [full]
    split
    · exact fun both => absurd both.1 (by decide)
    · exact fun both => absurd both.1 (by decide)
  rw [parseLoop]
  simp only [if_pos marks, if_neg enough]
  rcases marks with rfl | rfl
  · rfl
  · rfl

theorem parseLoop_text (cursor : ParseCursor) (tag : Tag) (parsed : tag.AsParsed)
    (free : plus ∉ tag.pre) (full : cursor.partI = 3) (untagged : cursor.result.version.tag = {}) :
    parseLoop cursor tag.text = { cursor with
      result := { cursor.result with version := { cursor.result.version with tag := tag } }
      i := cursor.i + tag.text.length } := by
  rcases tag.text_cases with ⟨empty, noTag⟩ | ⟨c, rest, text, marks⟩
  · rw [empty, noTag, ← untagged, parseLoop]
    rfl
  · have read := tag.parse_text parsed free (by rw [text]; exact List.cons_ne_nil c rest)
    rw [text] at read ⊢
    rw [parseLoop_marked cursor c rest marks full, read]

theorem parseLoop_fmt (version : Version) (parsed : version.tag.AsParsed)
    (free : plus ∉ version.tag.pre) :
    ∃ previous, parseLoop {} version.fmt =
      { result := { version := ⟨version.major, version.minor, version.patch, version.tag⟩ }
        partI := 3, i := version.fmt.length, previous } := by
  have textEnds : version.tag.text.takeWhile isAsciiDigit = [] := by
    rcases version.tag.text_cases with ⟨empty, _⟩ | ⟨c, rest, text, rfl | rfl⟩
    · rw [empty]
      rfl
    · rw [text]
      exact List.takeWhile_cons_of_neg (by decide)
    · rw [text]
      exact List.takeWhile_cons_of_neg (by decide)
  have length : version.fmt.length =
      0 + (decimalText version.major.toNat).length + 1 +
        (decimalText version.minor.toNat).length + 1 +
        (decimalText version.patch.toNat).length + version.tag.text.length := by
    rw [fmt_eq, List.length_append, List.length_cons, List.length_append, List.length_cons,
      List.length_append]
    omega
  rw [length, fmt_eq,
    parseLoop_number_dot {} _ _ _ (decimalText_isNumeric _)
      (parseAscii_decimalText version.major) Nat.zero_lt_two,
    parseLoop_number_dot _ _ _ _ (decimalText_isNumeric _)
      (parseAscii_decimalText version.minor) Nat.one_lt_two,
    parseLoop_number_last _ _ _ _ (decimalText_isNumeric _) textEnds
      (parseAscii_decimalText version.patch) rfl,
    parseLoop_text _ version.tag parsed free rfl rfl]
  exact ⟨_, rfl⟩

theorem not_isLeading_of_isAsciiDigit {c : UInt8} (digit : isAsciiDigit c = true) :
    isLeading c = false := by
  by_contra leads
  rw [Bool.not_eq_false] at leads
  unfold isLeading isWhitespaceChar at leads
  simp only [Bool.or_eq_true, beq_iff_eq] at leads
  rcases leads with ((((((rfl | rfl) | rfl) | rfl) | rfl) | rfl) | rfl) | rfl
  all_goals exact absurd digit (by decide)

theorem fmt_head (version : Version) :
    ∃ c rest, version.fmt = c :: rest ∧ isAsciiDigit c = true := by
  have numeric := decimalText_isNumeric version.major.toNat
  unfold isNumeric at numeric
  rw [Bool.and_eq_true, List.all_eq_true] at numeric
  rw [fmt_eq]
  cases digits : decimalText version.major.toNat with
  | nil =>
      rw [digits] at numeric
      exact absurd numeric.1 (by decide)
  | cons c rest =>
      rw [digits] at numeric
      exact ⟨c, _, List.cons_append, numeric.2 c List.mem_cons_self⟩

theorem parse_fmt (version : Version) (parsed : version.tag.AsParsed)
    (free : plus ∉ version.tag.pre) :
    parse version.fmt =
      { version := ⟨version.major, version.minor, version.patch, version.tag⟩
        len := version.fmt.length } := by
  obtain ⟨previous, read⟩ := parseLoop_fmt version parsed free
  obtain ⟨c, rest, head, digit⟩ := fmt_head version
  have notLeading := not_isLeading_of_isAsciiDigit digit
  have run : version.fmt.takeWhile isLeading = [] := by
    rw [head]
    exact List.takeWhile_cons_of_neg (by rw [notLeading]; exact Bool.false_ne_true)
  have after : version.fmt.dropWhile isLeading = version.fmt := by
    rw [head]
    exact List.dropWhile_cons_of_neg (by rw [notLeading]; exact Bool.false_ne_true)
  have present : ¬ version.fmt.isEmpty = true := by
    rw [head]
    exact Bool.false_ne_true
  dsimp only [parse]
  rw [if_neg present, run, after, if_neg present]
  change finish (parseLoop {} version.fmt) = _
  rw [read]
  rfl

theorem trim_eq_self (text : List UInt8)
    (visible : text.all validPreOrBuildTagCharacter = true) : trim text = text := by
  have notBlank : ∀ c ∈ text, ¬ isWhitespaceChar c = true := by
    intro c member blank
    have valid := List.all_eq_true.mp visible c member
    unfold isWhitespaceChar at blank
    simp only [Bool.or_eq_true, beq_iff_eq] at blank
    rcases blank with ((((rfl | rfl) | rfl) | rfl) | rfl) | rfl
    all_goals exact absurd valid (by decide)
  have untouched : ∀ text : List UInt8, (∀ c ∈ text, ¬ isWhitespaceChar c = true) →
      text.dropWhile isWhitespaceChar = text := by
    intro text notBlank
    cases text with
    | nil => rfl
    | cons c rest => exact List.dropWhile_cons_of_neg (notBlank c List.mem_cons_self)
  unfold trim
  rw [untouched text notBlank, untouched text.reverse
    (fun c member => notBlank c (List.mem_reverse.mp member)), List.reverse_reverse]

theorem valid_of_isAsciiDigit {c : UInt8} (digit : isAsciiDigit c = true) :
    validPreOrBuildTagCharacter c = true := by
  unfold validPreOrBuildTagCharacter
  rw [digit, Bool.or_true]

theorem decimalText_valid (n : ℕ) :
    (decimalText n).all validPreOrBuildTagCharacter = true := by
  have numeric := decimalText_isNumeric n
  unfold isNumeric at numeric
  rw [Bool.and_eq_true, List.all_eq_true] at numeric
  rw [List.all_eq_true]
  exact fun c member => valid_of_isAsciiDigit (numeric.2 c member)

theorem text_valid (tag : Tag) (parsed : tag.AsParsed) :
    tag.text.all validPreOrBuildTagCharacter = true := by
  unfold Tag.text
  rw [List.all_append, Bool.and_eq_true]
  constructor
  · split
    · rw [List.all_cons, parsed.1]
      rfl
    · rfl
  · split
    · rw [List.all_cons, parsed.2]
      rfl
    · rfl

theorem fmt_valid (version : Version) (parsed : version.tag.AsParsed) :
    version.fmt.all validPreOrBuildTagCharacter = true := by
  rw [fmt_eq, List.all_append, List.all_cons, List.all_append, List.all_cons, List.all_append,
    decimalText_valid, decimalText_valid, decimalText_valid, text_valid _ parsed]
  rfl

/-- An accepted version is printed in a form that reads back as the same version. -/
theorem parseExact_fmt (slice : List UInt8) (version : Version)
    (accepted : parseExact slice = some version) : parseExact version.fmt = some version := by
  have sound : version.tag.AsParsed ∧ plus ∉ version.tag.pre := by
    dsimp only [parseExact] at accepted
    split at accepted
    · rename_i whole
      obtain rfl := Option.some_inj.mp accepted
      have stored := parse_tagSound (trim slice)
      exact ⟨stored.1, stored.2 whole.2.2⟩
    · exact absurd accepted (by simp)
  dsimp only [parseExact]
  rw [trim_eq_self _ (fmt_valid version sound.1), parse_fmt version sound.1 sound.2]
  rw [if_pos ⟨rfl, rfl, rfl⟩]
  rfl

/-- ` v1.02.3rc.1+b ` is read and printed as `1.2.3-rc.1+b`. -/
theorem parseExact_fmt_lenient :
    parseExact (ascii " v1.02.3rc.1+b ") =
        some ⟨1, 2, 3, ⟨ascii "rc.1", ascii "b"⟩⟩ ∧
      parseExact (fmt ⟨1, 2, 3, ⟨ascii "rc.1", ascii "b"⟩⟩) =
        some ⟨1, 2, 3, ⟨ascii "rc.1", ascii "b"⟩⟩ :=
  have accepted : parseExact (ascii " v1.02.3rc.1+b ") =
      some ⟨1, 2, 3, ⟨ascii "rc.1", ascii "b"⟩⟩ := by decide +kernel
  ⟨accepted, parseExact_fmt _ _ accepted⟩

end Version

end Bun.Semver
