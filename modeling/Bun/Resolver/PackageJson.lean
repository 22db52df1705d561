/-
The `exports` and `imports` of a package.

Both are trees of strings, maps, arrays and nulls.  A subpath picks a key of the map at the
root, and the target under that key is followed down to a string, through the conditions
that hold and past the alternatives that fail.  The path of that string is resolved, with
what the key left over put in place.
-/

import Bun.Resolver.Segments

set_option autoImplicit false

namespace Bun.Resolver

open Bun.Paths

inductive Entry where
  | invalidJson
  /-- A target that is no string, as it is shown in an error. -/
  | invalid (rendered : List UInt8)
  | null
  | string (text : List UInt8)
  | array (items : List Entry)
  | map (list : List (List UInt8 × Entry))

inductive Status where
  | undefined
  | undefinedNoConditionsMatch
  | null
  | exact
  | exactEndsWithStar
  | inexact
  | invalidModuleSpecifier
  | invalidPackageConfiguration
  | invalidPackageTarget
  | packagePathNotExported
  | moduleNotFound
  | unsupportedDirectoryImport
  | packagePathDisabled
  | packageImportNotDefined
  | packageResolve
deriving DecidableEq, Repr

def Status.isUndefined (status : Status) : Bool :=
  status = .undefined || status = .undefinedNoConditionsMatch

inductive ResolutionDetail where
  | invalidTarget (key target : Option (List UInt8)) (bareStringTarget : Bool)
  | configMessage (message : List UInt8)
deriving DecidableEq, Repr

structure Resolution where
  status : Status := .undefined
  path : List UInt8 := []
  detail : Option ResolutionDetail := none
deriving DecidableEq, Repr

/-- What a resolution depends on, besides the package.  The predicates on texts stand for
code of other components. -/
structure ESModule where
  platform : Platform := .posix
  maxPathBytes : ℕ := 4096
  validatePackageConfig : Bool := false
  conditions : List UInt8 → Bool
  /-- Whether the stack has room for a target that is nested so deep. -/
  isSafeToRecurse : ℕ → Bool := fun _ => true
  isBuiltin : List UInt8 → Bool := fun _ => false
  parsesAsUrl : List UInt8 → Bool := fun _ => false
  isArrayIndex : List UInt8 → Bool := fun _ => false

structure ResolveTargetOptions where
  internal : Bool
  inArray : Bool

/-! ### Keys -/

def Entry.keysStartWithDot : Entry → Bool
  | .map ((key, _) :: _) => key.head? == some 0x2e
  | _ => false

def Entry.valueForKey (entry : Entry) (key : List UInt8) : Option Entry :=
  match entry with
  | .map list => (list.find? fun item => item.1 == key).map (·.2)
  | _ => none

def endsWithChar (text : List UInt8) (c : UInt8) : Bool :=
  text.getLast? == some c

/-- The length of a key up to its first `*`. -/
def baseLength (key : List UInt8) : ℕ :=
  (key.idxOf? 0x2a).getD key.length

def globLengthCompare (keyA keyB : List UInt8) : Ordering :=
  if baseLength keyA > baseLength keyB then .lt
  else if baseLength keyB > baseLength keyA then .gt
  else if (keyA.idxOf? 0x2a).isNone then .gt
  else if (keyB.idxOf? 0x2a).isNone then .lt
  else if keyA.length > keyB.length then .lt
  else if keyB.length > keyA.length then .gt
  else .eq

def isExpansionKey (key : List UInt8) : Bool :=
  endsWithChar key 0x2f || key.contains 0x2a

/-- The sort is stable, and asks only whether one key is less than another. -/
def expansionKeys (list : List (List UInt8 × Entry)) : List (List UInt8 × Entry) :=
  (list.filter fun item => isExpansionKey item.1).mergeSort fun a b =>
    globLengthCompare b.1 a.1 != .lt

/-! ### Targets -/

/-- Replaces every `*`. -/
def replaceStars (input replacement : List UInt8) : List UInt8 :=
  input.flatMap fun c => if c = 0x2a then replacement else [c]

section

variable (module : ESModule)

/-- A target that is a string without `./` before it: a package for `imports`, an error for
`exports`. -/
def resolveBareTarget (pattern : Bool) (text subpath : List UInt8) (options : ResolveTargetOptions) :
    Resolution :=
  if options.internal && !(ascii "../").isPrefixOf text && !(ascii "/").isPrefixOf text &&
      (!module.validatePackageConfig ||
        (!options.inArray && (ascii "bun:").isPrefixOf text && module.isBuiltin text) ||
        !module.parsesAsUrl text) then
    if pattern then
      if (replaceStars text subpath).length > module.maxPathBytes then
        { status := .invalidModuleSpecifier, path := subpath }
      else { status := .packageResolve, path := replaceStars text subpath }
    else { status := .packageResolve, path := joinStringBuf .posix [text, subpath] }
  else
    { status := .invalidPackageTarget
      path := text
      detail := some (.invalidTarget none (some text) (!text.isEmpty)) }

/-- A target in the package.  `resolved` is where it is. -/
def resolvePackageTarget (pattern : Bool) (packageUrl text subpath resolved : List UInt8) :
    Resolution :=
  if (findInvalidSegment resolved).isSome then { status := .invalidModuleSpecifier, path := text }
  else if pattern then
    let result := replaceStars resolved subpath
    if result.length > module.maxPathBytes then
      { status := .invalidModuleSpecifier, path := subpath }
    else if (findInvalidSegment result).isSome then
      { status := .invalidModuleSpecifier, path := result }
    else { status := .exactEndsWithStar, path := result }
  else
    { status := .exact
      path := joinStringBuf module.platform [packageUrl, text, subpath] }

def resolveString (pattern : Bool) (packageUrl text subpath : List UInt8)
    (options : ResolveTargetOptions) : Resolution :=
  if packageUrl.length + text.length + subpath.length + 8 > module.maxPathBytes then
    { status := .invalidPackageTarget, path := text }
  else if !pattern && !subpath.isEmpty && !endsWithChar text 0x2f then
    { status := .invalidModuleSpecifier, path := text }
  else if !subpath.isEmpty && (findInvalidSubpathSegment subpath).isSome then
    { status := .invalidModuleSpecifier, path := subpath }
  else if !(ascii "./").isPrefixOf text then resolveBareTarget module pattern text subpath options
  else if (findInvalidSegment text).isSome then
    { status := .invalidPackageTarget
      path := text
      detail := some (.invalidTarget none (some text) false) }
  else
    resolvePackageTarget module pattern packageUrl text subpath
      (joinStringBuf module.platform [packageUrl, text])

def numericKeysMessage : List UInt8 :=
  ascii "\"exports\" cannot contain numeric property keys."

mutual

def resolveTarget (pattern : Bool) (packageUrl : List UInt8) (subpath : List UInt8)
    (internal inArray : Bool) (depth : ℕ) : Entry → Resolution
  | .string text =>
      if !module.isSafeToRecurse depth then { status := .invalidPackageConfiguration }
      else resolveString module pattern packageUrl text subpath ⟨internal, inArray⟩
  | .map list =>
      if !module.isSafeToRecurse depth then { status := .invalidPackageConfiguration }
      else if module.validatePackageConfig && list.any (fun item => module.isArrayIndex item.1) then
        { status := .invalidPackageConfiguration, detail := some (.configMessage numericKeysMessage) }
      else resolveConditions pattern packageUrl subpath internal inArray (depth + 1) list
  | .array items =>
      if !module.isSafeToRecurse depth then { status := .invalidPackageConfiguration }
      else if items.isEmpty then { status := .null }
      else resolveAlternatives pattern packageUrl subpath internal (depth + 1) {} items
  | .invalid rendered =>
      if !module.isSafeToRecurse depth then { status := .invalidPackageConfiguration }
      else
        { status := .invalidPackageTarget
          detail := some (.invalidTarget none (some rendered) (!rendered.isEmpty)) }
  | .null =>
      if !module.isSafeToRecurse depth then { status := .invalidPackageConfiguration }
      else { status := .null }
  | .invalidJson =>
      if !module.isSafeToRecurse depth then { status := .invalidPackageConfiguration }
      else { status := .invalidPackageTarget }

/-- The first condition that holds and leads somewhere. -/
def resolveConditions (pattern : Bool) (packageUrl : List UInt8) (subpath : List UInt8)
    (internal inArray : Bool) (depth : ℕ) : List (List UInt8 × Entry) → Resolution
  | [] => { status := .undefinedNoConditionsMatch }
  | (key, value) :: rest =>
      if module.conditions key then
        let result := resolveTarget pattern packageUrl subpath internal inArray depth value
        if result.status.isUndefined then
          resolveConditions pattern packageUrl subpath internal inArray depth rest
        else result
      else resolveConditions pattern packageUrl subpath internal inArray depth rest

/-- The first alternative that is no invalid target, or else the last error. -/
def resolveAlternatives (pattern : Bool) (packageUrl : List UInt8) (subpath : List UInt8)
    (internal : Bool) (depth : ℕ) (lastException : Resolution) : List Entry → Resolution
  | [] => lastException
  | target :: rest =>
      let result := resolveTarget pattern packageUrl subpath internal true depth target
      if result.status = .invalidPackageTarget || result.status = .null then
        resolveAlternatives pattern packageUrl subpath internal depth result rest
      else if result.status.isUndefined then
        resolveAlternatives pattern packageUrl subpath internal depth lastException rest
      else result

end

/-! ### Resolution -/

def attachFailureKey (result : Resolution) (key : List UInt8) : Resolution :=
  if result.status = .invalidPackageTarget then
    match result.detail with
    | some (.invalidTarget none target bare) =>
        { result with detail := some (.invalidTarget (some key) target bare) }
    | none => { result with detail := some (.invalidTarget (some key) none false) }
    | _ => result
  else result

/-- What is left of the match key for the wildcard or after the slash of a key, if the key
matches. -/
def matchExpansion (matchKey key : List UInt8) : Option (List UInt8) :=
  match key.idxOf? 0x2a with
  | some star =>
      let patternBase := key.take star
      let patternTrailer := key.drop (star + 1)
      if patternBase.isPrefixOf matchKey &&
          (patternTrailer.isEmpty ||
            (patternTrailer.isSuffixOf matchKey && key.length ≤ matchKey.length)) then
        some ((matchKey.take (matchKey.length - patternTrailer.length)).drop patternBase.length)
      else none
  | none => if key.isPrefixOf matchKey then some (matchKey.drop key.length) else none

/-- The first expansion key that matches, with its target and what is left over. -/
def findExpansion (matchKey : List UInt8) :
    List (List UInt8 × Entry) → Option (List UInt8 × Entry × List UInt8)
  | [] => none
  | (key, value) :: rest =>
      match matchExpansion matchKey key with
      | some subpath => some (key, value, subpath)
      | none => findExpansion matchKey rest

/-- The target of an expansion key, `pattern` for a key with `*`. -/
def resolveExpansion (packageUrl : List UInt8) (isImports : Bool) (key : List UInt8) (value : Entry)
    (subpath : List UInt8) : Resolution :=
  let pattern := key.contains 0x2a
  let result :=
    attachFailureKey (resolveTarget module pattern packageUrl subpath isImports false 0 value) key
  if !pattern && (result.status = .exact || result.status = .exactEndsWithStar) then
    { result with status := .inexact }
  else result

def resolveImportsExports (matchKey : List UInt8) (matchObj : Entry) (isImports : Bool)
    (packageUrl : List UInt8) : Resolution :=
  match (if !endsWithChar matchKey 0x2f && !matchKey.contains 0x2a then
    matchObj.valueForKey matchKey else none) with
  | some target =>
      attachFailureKey (resolveTarget module false packageUrl [] isImports false 0 target) matchKey
  | none =>
      match matchObj with
      | .map list =>
          match findExpansion matchKey (expansionKeys list) with
          | some (key, value, subpath) =>
              resolveExpansion module packageUrl isImports key value subpath
          | none => { status := .null }
      | _ => { status := .null }

def nodeMixedKeysMessage : List UInt8 :=
  ascii ("\"exports\" cannot contain some keys starting with '.' and some not. " ++
    "The exports object must either be an object of package subpath keys or " ++
    "an object of main entry condition name keys only.")

def Entry.mixesKeys : Entry → Bool
  | .map ((first, _) :: rest) =>
      rest.any fun item => (item.1.head? == some 0x2e) != (first.head? == some 0x2e)
  | _ => false

def mainExport (exports : Entry) : Option Entry :=
  match exports with
  | .string _ | .array _ => some exports
  | .map _ => if exports.keysStartWithDot then exports.valueForKey (ascii ".") else some exports
  | _ => none

def Entry.isNull : Entry → Bool
  | .null => true
  | _ => false

def Entry.isMap : Entry → Bool
  | .map _ => true
  | _ => false

def resolveMain (packageUrl : List UInt8) (exports : Entry) : Resolution :=
  match mainExport exports with
  | some main =>
      if main.isNull then { status := .packagePathNotExported }
      else
        let result := resolveTarget module false packageUrl [] false false 0 main
        if result.status ≠ .null && result.status ≠ .undefined then
          attachFailureKey result (ascii ".")
        else { status := .packagePathNotExported }
  | none => { status := .packagePathNotExported }

def resolveExports (packageUrl subpath : List UInt8) (exports : Entry) : Resolution :=
  if exports.mixesKeys then
    { status := .invalidPackageConfiguration
      detail := some (.configMessage nodeMixedKeysMessage) }
  else if subpath = ascii "." then resolveMain module packageUrl exports
  else if exports.isMap && exports.keysStartWithDot then
    let result := resolveImportsExports module subpath exports false packageUrl
    if result.status ≠ .null && result.status ≠ .undefined then result
    else if result.status = .null then { status := .packagePathDisabled }
    else { status := .packagePathNotExported }
  else { status := .packagePathNotExported }

def containsText (needle : List UInt8) : List UInt8 → Bool
  | [] => needle.isEmpty
  | c :: rest => needle.isPrefixOf (c :: rest) || containsText needle rest

def invalidPercentChars : List (List UInt8) :=
  ["%2f", "%2F", "%5c", "%5C"].map ascii

def Status.isFound (status : Status) : Bool :=
  status = .exact || status = .exactEndsWithStar || status = .inexact

def endsWithSeparator (path : List UInt8) : Bool :=
  (path.getLast?.map isSepAny).getD false

def finalize (result : Resolution) : Resolution :=
  if !result.status.isFound then result
  else if !result.path.contains 0x25 then
    if endsWithSeparator result.path then { result with status := .unsupportedDirectoryImport }
    else result
  else if invalidPercentChars.any fun encoded => containsText encoded result.path then
    { status := .invalidModuleSpecifier, path := result.path }
  else
    match decodeInto module.maxPathBytes result.path with
    | none => { status := .invalidModuleSpecifier, path := result.path }
    | some decoded =>
        if endsWithSeparator decoded then
          { status := .unsupportedDirectoryImport, path := result.path }
        else { result with path := decoded }

def resolve (packageUrl subpath : List UInt8) (exports : Entry) : Resolution :=
  finalize module (resolveExports module packageUrl subpath exports)

def resolveImports (specifier : List UInt8) (imports : Entry) : Resolution :=
  if !imports.isMap then { status := .packageImportNotDefined }
  else
    let result := resolveImportsExports module specifier imports true (ascii "/")
    if result.status = .undefined || result.status = .null then
      { status := .packageImportNotDefined }
    else finalize module result

end

end Bun.Resolver
