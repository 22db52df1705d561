/-
The parser of range expressions.

The cursor is the text that is still to be read.  A round reads an operator or
something to skip, then a version, and a hyphen with a second version if there
is one.
-/

import Bun.Semver.Range

set_option autoImplicit false

namespace Bun.Semver

inductive TokenTag where
  | none
  | gt
  | gte
  | lt
  | lte
  | version
  | tilda
  | caret
deriving DecidableEq, Repr

structure Token where
  tag : TokenTag := .none
  wildcard : Wildcard := .none
deriving DecidableEq, Repr

namespace Token

/-- `^version`: `>=` the version, and `<` the next change of its first part that is not
zero. -/
def caretRange (parsed : ParseResult) (floor : Tag) : Range :=
  let version := parsed.version
  match version.major with
  | none => if parsed.valid then .initWildcard version.min .major floor else {}
  | some major =>
      match version.minor with
      | none =>
          { left := { op := .gte, version := { major, tag := floor } }
            right := .ltNextMajor major }
      | some minor =>
          match version.patch with
          | none =>
              { left := { op := .gte, version := { major, minor, tag := floor } }
                right := if major = 0 then .ltNextMinor 0 minor else .ltNextMajor major }
          | some patch =>
              if major = 0 then
                let tag := if !version.tag.hasPre then { version.tag with pre := floor.pre }
                  else version.tag
                { left := { op := .gte, version := { major, minor, patch, tag } }
                  right := if minor = 0 then .ltNextPatch 0 0 patch else .ltNextMinor 0 minor }
              else
                { left := { op := .gte, version := { major, minor, patch, tag := version.tag } }
                  right := .ltNextMajor major }

/-- `~version`: `>=` the version, and `<` the next minor or major version. -/
def tildaRange (parsed : ParseResult) (floor : Tag) : Range :=
  let version := parsed.version
  match version.major with
  | none => if parsed.valid then .initWildcard version.min .major floor else {}
  | some major =>
      match version.minor with
      | none => { left := { op := .gte, version := { major } }, right := .ltNextMajor major }
      | some minor =>
          match version.patch with
          | none =>
              { left := { op := .gte, version := { major, minor } }
                right := .ltNextMinor major minor }
          | some patch =>
              { left := { op := .gte, version := { major, minor, patch, tag := version.tag } }
                right := .ltNextMinor major minor }

/-- `>`, `>=`, `<` or `<=` with a version that may be partial. -/
def operatorRange (op : Op) (wildcard : Wildcard) (parsed : ParseResult) (floor : Tag) : Range :=
  let version := parsed.version
  let major := version.major.getD 0
  let minor := version.minor.getD 0
  let firstOfPartial (tag : Tag) : Comparator := { op, version := { major, minor, tag } }
  match op, wildcard with
  | _, .none => { left := { op, version := version.min } }
  | .gt, .major | .lt, .major =>
      if parsed.valid then { left := .nullSet } else .initWildcard version.min .major floor
  | _, .major => .initWildcard version.min .major floor
  | .gte, _ => { left := firstOfPartial floor }
  | .lt, _ => { left := firstOfPartial .zeroPre }
  | .gt, .minor => { left := .gteNextMajor major floor }
  | .gt, .patch => { left := .gteNextMinor major minor floor }
  | _, .minor => { left := .ltNextMajor major }
  | _, .patch => { left := .ltNextMinor major minor }

/-- `TokenTag::None` is `unreachable!()` in the source: the caller skips it. -/
def toRange (token : Token) (parsed : ParseResult) (floor : Tag) : Range :=
  match token.tag with
  | .caret => caretRange parsed floor
  | .tilda => tildaRange parsed floor
  | .none => {}
  | .version =>
      if token.wildcard ≠ .none then .initWildcard parsed.version.min token.wildcard floor
      else { left := { op := .eql, version := parsed.version.min } }
  | .gt => operatorRange .gt token.wildcard parsed floor
  | .gte => operatorRange .gte token.wildcard parsed floor
  | .lt => operatorRange .lt token.wildcard parsed floor
  | .lte => operatorRange .lte token.wildcard parsed floor

end Token

namespace Query

structure QueryCursor where
  list : Group := {}
  token : Token := {}
  isOr : Bool := false
  afterComparator : Bool := false
deriving DecidableEq, Repr

def skipSpaces (rest : List UInt8) : List UInt8 :=
  rest.dropWhile (· = space)

structure Opening where
  cursor : QueryCursor
  rest : List UInt8
  skipRound : Bool := false
  noOperator : Bool := false

def QueryCursor.withTag (cursor : QueryCursor) (tag : TokenTag) : QueryCursor :=
  { cursor with token := { cursor.token with tag } }

def readOperator (cursor : QueryCursor) (c : UInt8) (rest : List UInt8) : Opening :=
  if c = 0x3e ∨ c = 0x3c then
    let rest := skipSpaces rest
    let orEqual := rest.head? = some 0x3d
    let tag : TokenTag :=
      if c = 0x3e then (if orEqual then .gte else .gt) else (if orEqual then .lte else .lt)
    { cursor := cursor.withTag tag, rest := skipSpaces (if orEqual then rest.drop 1 else rest) }
  else if c = 0x3d ∨ c = 0x76 then
    { cursor := cursor.withTag .version, rest := skipSpaces rest, noOperator := true }
  else if c = 0x7e then
    { cursor := cursor.withTag .tilda
      rest := skipSpaces (if rest.head? = some 0x3e then rest.drop 1 else rest) }
  else if c = 0x5e then
    { cursor := cursor.withTag .caret, rest := skipSpaces rest }
  else if isAsciiDigit c ∨ isWildcardChar c then
    { cursor := cursor.withTag .version, rest := c :: rest, noOperator := true }
  else if c = 0x7c then
    { cursor := { cursor.withTag .none with isOr := true }
      rest := skipSpaces (rest.dropWhile (· = 0x7c)), skipRound := true }
  else if c = hyphen then
    { cursor, rest := skipSpaces rest }
  else if c = space then
    { cursor, rest := skipSpaces rest, skipRound := true }
  else
    { cursor := { cursor.withTag .none with
        afterComparator := false
        list := { cursor.list with flags := { cursor.list.flags with skipped := true } } }
      rest := rest.dropWhile fun c => c ≠ space ∧ c ≠ 0x7c
      skipRound := true }

/-- Pass over a `v` or `=`. -/
def skipMarker (rest : List UInt8) : List UInt8 :=
  match rest with
  | c :: after => if c = 0x76 ∨ c = 0x3d then after else rest
  | [] => rest

def afterHyphen (rest : List UInt8) : Option (List UInt8) :=
  match (skipMarker (rest.dropWhile isWhitespaceChar)).dropWhile isWhitespaceChar with
  | c :: after => if isAsciiDigit c ∨ isWildcardChar c then some (c :: after) else none
  | [] => none

/-- The text of a second version, when a hyphen and a version follow. -/
def hyphenated (rest : List UInt8) : Option (List UInt8) :=
  if rest.head? = some space ∨ rest.head? = some hyphen then
    match rest.dropWhile isWhitespaceChar with
    | c :: after => if c = hyphen then afterHyphen after else none
    | [] => none
  else none

/-- Record what a parsed version says about the whole range. -/
def noteVersion (list : Group) (parsed : ParseResult) : Group :=
  let version := parsed.version.min
  { list with flags :=
    { skipped := list.flags.skipped || !parsed.valid
      build := list.flags.build || version.tag.hasBuild
      pre := list.flags.pre || version.tag.hasPre } }

def hyphenRange (version : Version) (second : ParseResult) (floor : Tag) : Range :=
  let secondVersion := second.version.min
  let tag := if !version.tag.hasPre then { version.tag with pre := floor.pre } else version.tag
  { left := { op := .gte, version := { version with tag } }
    right :=
      match second.wildcard with
      | .major => {}
      | .minor => .ltNextMajor secondVersion.major
      | .patch => .ltNextMinor secondVersion.major secondVersion.minor
      | .none =>
          if floor.hasPre && !secondVersion.tag.hasPre then
            .ltNextPatch secondVersion.major secondVersion.minor secondVersion.patch
          else { op := .lte, version := secondVersion } }

def startsAlternative (opening : Opening) (valid : Bool) : Bool :=
  opening.cursor.isOr || (opening.noOperator && !(opening.cursor.afterComparator && valid))

def addRange (opening : Opening) (list : Group) (valid : Bool) (rollback : List UInt8)
    (range : Range) : QueryCursor where
  list := if startsAlternative opening valid then list.orRange range else list.andRange range
  token := { opening.cursor.token with wildcard := .none }
  isOr := false
  afterComparator := valid && rollback.head? = some space

def skipChunk (opening : Opening) (list : Group) (valid : Bool) : QueryCursor where
  list := { list with flags := { list.flags with skipped := true } }
  token := { opening.cursor.token with wildcard := .none }
  isOr := startsAlternative opening valid
  afterComparator := opening.cursor.afterComparator

/-- The rest of a round: its version or versions, and the range they make.  `none` is the
early return of the empty set for a number that does not fit. -/
def readRange (floor : Tag) (opening : Opening) : Option (QueryCursor × List UInt8) :=
  let parsed := Version.parse opening.rest
  let list := noteVersion opening.cursor.list parsed
  let rollback := opening.rest.drop parsed.len
  if parsed.overflow then none
  else
    match hyphenated rollback with
    | some rest =>
        let second := Version.parse rest
        if second.overflow then none
        else
          some (addRange opening (noteVersion list second) false rollback
            (hyphenRange parsed.version.min second floor), rest.drop (second.len + 1))
    | none =>
        if opening.cursor.token.tag = .none then
          some (skipChunk opening list parsed.valid, rollback.drop 1)
        else
          let token : Token := { opening.cursor.token with wildcard := parsed.wildcard }
          some (addRange opening list parsed.valid rollback (token.toRange parsed floor),
            rollback.drop 1)

/-! ### The loop -/

theorem dropWhile_length_le (p : UInt8 → Bool) (rest : List UInt8) :
    (rest.dropWhile p).length ≤ rest.length :=
  (List.dropWhile_suffix p).length_le

theorem skipSpaces_length_le (rest : List UInt8) : (skipSpaces rest).length ≤ rest.length :=
  dropWhile_length_le _ rest

theorem skipSpaces_optional_length_le (cond : Prop) [Decidable cond] (text : List UInt8) :
    (skipSpaces (if cond then text.drop 1 else text)).length ≤ text.length := by
  refine Nat.le_trans (skipSpaces_length_le _) ?_
  split
  · rw [List.length_drop]
    exact Nat.sub_le _ _
  · exact Nat.le_refl _

theorem readOperator_length (cursor : QueryCursor) (c : UInt8) (rest : List UInt8) :
    (readOperator cursor c rest).rest.length ≤ rest.length ∨
      ((readOperator cursor c rest).rest = c :: rest ∧
        (readOperator cursor c rest).skipRound = false) := by
  unfold readOperator
  split
  · exact Or.inl (Nat.le_trans (skipSpaces_optional_length_le _ _) (skipSpaces_length_le rest))
  split
  · exact Or.inl (skipSpaces_length_le rest)
  split
  · exact Or.inl (skipSpaces_optional_length_le _ rest)
  split
  · exact Or.inl (skipSpaces_length_le rest)
  split
  · exact Or.inr ⟨rfl, rfl⟩
  split
  · exact Or.inl (Nat.le_trans (skipSpaces_length_le _) (dropWhile_length_le _ rest))
  split
  · exact Or.inl (skipSpaces_length_le rest)
  split
  · exact Or.inl (skipSpaces_length_le rest)
  · exact Or.inl (dropWhile_length_le _ rest)

theorem skipMarker_length_le (rest : List UInt8) : (skipMarker rest).length ≤ rest.length := by
  unfold skipMarker
  split
  · split
    · exact Nat.le_succ _
    · exact Nat.le_refl _
  · exact Nat.le_refl _

theorem afterHyphen_length {rest second : List UInt8} (found : afterHyphen rest = some second) :
    second.length ≤ rest.length := by
  unfold afterHyphen at found
  split at found
  · rename_i c after dropped
    split at found
    · obtain rfl := Option.some_inj.mp found
      rw [← dropped]
      exact Nat.le_trans (dropWhile_length_le _ _)
        (Nat.le_trans (skipMarker_length_le _) (dropWhile_length_le _ rest))
    · exact absurd found (by simp)
  · exact absurd found (by simp)

theorem hyphenated_length {rest second : List UInt8} (found : hyphenated rest = some second) :
    second.length < rest.length := by
  unfold hyphenated at found
  split at found
  · split at found
    · rename_i c after dropped
      have shorter := dropWhile_length_le isWhitespaceChar rest
      rw [dropped, List.length_cons] at shorter
      split at found
      · exact Nat.lt_of_le_of_lt (afterHyphen_length found) shorter
      · exact absurd found (by simp)
    · exact absurd found (by simp)
  · exact absurd found (by simp)

theorem readRange_length (floor : Tag) (opening : Opening) {cursor : QueryCursor}
    {rest : List UInt8} (read : readRange floor opening = some (cursor, rest)) :
    rest.length ≤ opening.rest.length - 1 := by
  dsimp only [readRange] at read
  split at read
  · exact absurd read (by simp)
  · split at read
    · rename_i second found
      have shorter := hyphenated_length found
      rw [List.length_drop] at shorter
      split at read
      · exact absurd read (by simp)
      · obtain rfl := congrArg Prod.snd (Option.some_inj.mp read)
        rw [List.length_drop]
        omega
    · split at read
      · obtain rfl := congrArg Prod.snd (Option.some_inj.mp read)
        rw [List.length_drop, List.length_drop]
        omega
      · obtain rfl := congrArg Prod.snd (Option.some_inj.mp read)
        rw [List.length_drop, List.length_drop]
        omega

/-- `none` is the early return of the empty set. -/
def parseLoop (floor : Tag) (cursor : QueryCursor) : List UInt8 → Option Group
  | [] => some cursor.list
  | c :: rest =>
      if (readOperator cursor c rest).skipRound then
        parseLoop floor (readOperator cursor c rest).cursor (readOperator cursor c rest).rest
      else
        match _read : readRange floor (readOperator cursor c rest) with
        | none => none
        | some (next, after) => parseLoop floor next after
termination_by rest => rest.length
decreasing_by
  · rename_i skips
    rcases readOperator_length cursor c rest with shorter | ⟨_, reads⟩
    · exact Nat.lt_succ_of_le shorter
    · exact absurd skips (by rw [reads]; exact Bool.false_ne_true)
  · have shorter := readRange_length floor _ (by assumption)
    rw [List.length_cons]
    rcases readOperator_length cursor c rest with skipped | ⟨same, _⟩
    · omega
    · rw [same, List.length_cons] at shorter
      omega

def parseWith (input : List UInt8) (floor : Tag) : Group :=
  (parseLoop floor {} input).getD .nullSet

def parse (input : List UInt8) : Group :=
  parseWith input {}

end Query

/-! ### The parser makes well-formed groups -/

theorem Range.initWildcard_wellFormed (version : Version) (wildcard : Wildcard) (floor : Tag) :
    (Range.initWildcard version wildcard floor).WellFormed := by
  refine wellFormed_of_left ?_
  cases wildcard with
  | none => rfl
  | major => rfl
  | minor =>
      unfold initWildcard Comparator.ltNextMajor
      cases checkedAddOne version.major with
      | none => rfl
      | some next => rfl
  | patch =>
      unfold initWildcard Comparator.ltNextMinor
      cases checkedAddOne version.minor with
      | none => rfl
      | some next => rfl

namespace Token

theorem caretRange_wellFormed (parsed : ParseResult) (floor : Tag) :
    (caretRange parsed floor).WellFormed := by
  dsimp only [caretRange]
  split
  · split
    · exact Range.initWildcard_wellFormed _ _ _
    · exact Range.wellFormed_default
  · split
    · exact Range.wellFormed_of_left rfl
    · split
      · exact Range.wellFormed_of_left rfl
      · split
        · exact Range.wellFormed_of_left rfl
        · exact Range.wellFormed_of_left rfl

theorem tildaRange_wellFormed (parsed : ParseResult) (floor : Tag) :
    (tildaRange parsed floor).WellFormed := by
  dsimp only [tildaRange]
  split
  · split
    · exact Range.initWildcard_wellFormed _ _ _
    · exact Range.wellFormed_default
  · split
    · exact Range.wellFormed_of_left rfl
    · split
      · exact Range.wellFormed_of_left rfl
      · exact Range.wellFormed_of_left rfl

theorem wellFormed_left (left : Comparator) : Range.WellFormed { left } := by
  intro right
  exact absurd right Bool.false_ne_true

theorem operatorRange_wellFormed (op : Op) (wildcard : Wildcard) (parsed : ParseResult)
    (floor : Tag) : (operatorRange op wildcard parsed floor).WellFormed := by
  dsimp only [operatorRange]
  split
  all_goals first
    | exact wellFormed_left _
    | exact Range.initWildcard_wellFormed _ _ _
    | split
  all_goals exact wellFormed_left _

theorem toRange_wellFormed (token : Token) (parsed : ParseResult) (floor : Tag) :
    (token.toRange parsed floor).WellFormed := by
  unfold toRange
  split
  · exact caretRange_wellFormed parsed floor
  · exact tildaRange_wellFormed parsed floor
  · exact Range.wellFormed_default
  · split
    · exact Range.initWildcard_wellFormed _ _ _
    · exact wellFormed_left _
  · exact operatorRange_wellFormed _ _ _ _
  · exact operatorRange_wellFormed _ _ _ _
  · exact operatorRange_wellFormed _ _ _ _
  · exact operatorRange_wellFormed _ _ _ _

end Token

namespace Query

theorem hyphenRange_wellFormed (version : Version) (second : ParseResult) (floor : Tag) :
    (hyphenRange version second floor).WellFormed :=
  Range.wellFormed_of_left rfl

theorem addRange_wellFormed (opening : Opening) {list : Group} (wellFormed : list.WellFormed)
    (valid : Bool) (rollback : List UInt8) {range : Range} (added : range.WellFormed) :
    (addRange opening list valid rollback range).list.WellFormed := by
  dsimp only [addRange]
  split
  · exact Group.orRange_wellFormed wellFormed added
  · exact Group.andRange_wellFormed wellFormed added

theorem noteVersion_wellFormed {list : Group} (wellFormed : list.WellFormed) (parsed : ParseResult) :
    (noteVersion list parsed).WellFormed :=
  wellFormed

theorem readOperator_wellFormed {cursor : QueryCursor} (wellFormed : cursor.list.WellFormed)
    (c : UInt8) (rest : List UInt8) : (readOperator cursor c rest).cursor.list.WellFormed := by
  have alternatives : (readOperator cursor c rest).cursor.list.alternatives =
      cursor.list.alternatives := by
    unfold readOperator
    repeat' split
    all_goals rfl
  intro query member
  rw [alternatives] at member
  exact wellFormed query member

theorem readRange_wellFormed (floor : Tag) {opening : Opening}
    (wellFormed : opening.cursor.list.WellFormed) {cursor : QueryCursor} {rest : List UInt8}
    (read : readRange floor opening = some (cursor, rest)) : cursor.list.WellFormed := by
  dsimp only [readRange] at read
  split at read
  · exact absurd read (by simp)
  · split at read
    · split at read
      · exact absurd read (by simp)
      · obtain rfl := congrArg Prod.fst (Option.some_inj.mp read)
        exact addRange_wellFormed opening
          (noteVersion_wellFormed (noteVersion_wellFormed wellFormed _) _) _ _
          (hyphenRange_wellFormed _ _ floor)
    · split at read
      · obtain rfl := congrArg Prod.fst (Option.some_inj.mp read)
        exact wellFormed
      · obtain rfl := congrArg Prod.fst (Option.some_inj.mp read)
        exact addRange_wellFormed opening (noteVersion_wellFormed wellFormed _) _ _
          (Token.toRange_wellFormed _ _ floor)

theorem parseLoop_wellFormed (floor : Tag) (cursor : QueryCursor)
    (wellFormed : cursor.list.WellFormed) (input : List UInt8) {group : Group}
    (parsed : parseLoop floor cursor input = some group) : group.WellFormed := by
  fun_induction parseLoop floor cursor input with
  | case1 cursor =>
      obtain rfl := Option.some_inj.mp parsed
      exact wellFormed
  | case2 cursor c rest _ ih => exact ih (readOperator_wellFormed wellFormed c rest) parsed
  | case3 => exact absurd parsed (by simp)
  | case4 cursor c rest _ next after read ih =>
      exact ih (readRange_wellFormed floor (readOperator_wellFormed wellFormed c rest) read) parsed

theorem parse_wellFormed (input : List UInt8) : (parse input).WellFormed := by
  unfold parse parseWith
  cases parsed : parseLoop {} {} input with
  | none =>
      intro query member
      obtain rfl := List.mem_singleton.mp member
      exact wellFormed_single (Token.wellFormed_left _)
  | some group =>
      refine parseLoop_wellFormed {} {} ?_ input parsed
      intro query member
      obtain rfl := List.mem_singleton.mp member
      exact wellFormed_single Range.wellFormed_default

end Query

end Bun.Semver
