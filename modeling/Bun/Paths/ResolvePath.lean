/-
Paths that are joined and normalized.

A path is normalized from left to right into a buffer.  A `.` is skipped and a `..` takes
away the element before it, down to the mark below which nothing may be taken.
-/

import Mathlib.Data.Nat.Notation
import Bun.Core.AsciiText

set_option autoImplicit false

namespace Bun.Paths

/-! ### Platforms -/

/-- The platforms whose rules a path can follow on its own. -/
inductive Platform where
  | loose
  | windows
  | posix
deriving DecidableEq, Repr

def isSepAny (c : UInt8) : Bool :=
  c == 0x2f || c == 0x5c

def isSepPosix (c : UInt8) : Bool :=
  c == 0x2f

namespace Platform

def separator : Platform → UInt8
  | .loose | .posix => 0x2f
  | .windows => 0x5c

def isSeparator : Platform → UInt8 → Bool
  | .loose | .windows => isSepAny
  | .posix => isSepPosix

end Platform

def isAbsoluteWindows : List UInt8 → Bool
  | [] => false
  | [c] => isSepAny c
  | [c, _] => isSepAny c
  | c :: colon :: slash :: _ => isSepAny c || (colon == 0x3a && isSepAny slash)

def Platform.isAbsolute : Platform → List UInt8 → Bool
  | .posix, path => path.head? == some 0x2f
  | .loose, path | .windows, path => isAbsoluteWindows path

/-! ### Volumes -/

def isDriveLetter (c : UInt8) : Bool :=
  (0x61 ≤ c && c ≤ 0x7a) || (0x41 ≤ c && c ≤ 0x5a)

def toAsciiUpper (c : UInt8) : UInt8 :=
  if 0x61 ≤ c && c ≤ 0x7a then c - 0x20 else c

/-- The length of a volume name, and where the third slash of a UNC name is. -/
def windowsVolumeNameLen (path : List UInt8) : ℕ × ℕ :=
  match path with
  | c :: colon :: rest =>
      if colon == 0x3a && isDriveLetter c then (2, 0)
      else
        match rest with
        | third :: tail =>
            if 2 ≤ tail.length && isSepAny c && isSepAny colon && !isSepAny third && third != 0x2e then
              match tail.findIdx? isSepAny with
              | some server =>
                  let share := tail.drop (server + 1)
                  match share with
                  | first :: _ =>
                      if !isSepAny first then
                        match share.findIdx? isSepAny with
                        | some end_ => (server + end_ + 4, server + 3)
                        | none => (path.length, server + 3)
                      else (path.length, 0)
                  | [] => (path.length, 0)
              | none => (path.length, 0)
            else (0, 0)
        | [] => (0, 0)
  | _ => (0, 0)

def windowsStart (path : List UInt8) : List UInt8 × ℕ × ℕ :=
  let separator : UInt8 := 0x5c
  let (volume, third) := windowsVolumeNameLen path
  if 0 < volume then
    match path with
    | drive :: 0x3a :: _ => ([toAsciiUpper drive, 0x3a], 2, 2)
    | _ =>
        let name :=
          if 0 < third then
            (path.take third).drop 2 ++ separator :: (path.take volume).drop (third + 1)
          else (path.take volume).drop 2
        (separator :: separator :: name ++ [separator], 0, volume + 1)
  else if (path.head?.map isSepAny).getD false then ([separator], 1, 1)
  else ([], 0, 0)

/-! ### Normalization -/

/-- The end of the output after its last element is taken away. -/
def backTo (isSeparator : UInt8 → Bool) (mark : ℕ) (buffer : List UInt8) : ℕ → ℕ
  | 0 => 0
  | index + 1 =>
      if mark < index + 1 && !((buffer[index + 1]?.map isSeparator).getD false) then
        backTo isSeparator mark buffer index
      else index + 1

def addSeparator (isSeparator : UInt8 → Bool) (separator : UInt8) (start : ℕ)
    (buffer : List UInt8) : List UInt8 :=
  if buffer.length ≠ start && !((buffer.getLast?.map isSeparator).getD true) then
    buffer ++ [separator]
  else buffer

def startsElement (isSeparator : UInt8 → Bool) (element path : List UInt8) : Bool :=
  element.isPrefixOf path && ((path.drop element.length).head?.map isSeparator).getD true

def normalizeElements (isSeparator : UInt8 → Bool) (separator : UInt8) (allowAboveRoot : Bool)
    (start : ℕ) (path buffer : List UInt8) (mark : ℕ) : List UInt8 :=
  match path with
  | [] => buffer
  | c :: rest =>
      if isSeparator c then
        normalizeElements isSeparator separator allowAboveRoot start rest buffer mark
      else if startsElement isSeparator [0x2e] (c :: rest) then
        normalizeElements isSeparator separator allowAboveRoot start rest buffer mark
      else if startsElement isSeparator [0x2e, 0x2e] (c :: rest) then
        if mark < buffer.length then
          normalizeElements isSeparator separator allowAboveRoot start (rest.drop 1)
            (buffer.take (backTo isSeparator mark buffer (buffer.length - 1))) mark
        else if allowAboveRoot then
          let buffer :=
            if start < buffer.length then buffer ++ [separator, 0x2e, 0x2e]
            else buffer ++ [0x2e, 0x2e]
          normalizeElements isSeparator separator allowAboveRoot start (rest.drop 1) buffer
            buffer.length
        else
          normalizeElements isSeparator separator allowAboveRoot start (rest.drop 1) buffer mark
      else
        normalizeElements isSeparator separator allowAboveRoot start
          (rest.dropWhile (!isSeparator ·))
          (addSeparator isSeparator separator start buffer ++
            c :: rest.takeWhile (!isSeparator ·))
          mark
termination_by path.length
decreasing_by
  · exact Nat.lt_succ_self _
  · exact Nat.lt_succ_self _
  · rw [List.length_drop, List.length_cons]
    omega
  · rw [List.length_drop, List.length_cons]
    omega
  · rw [List.length_drop, List.length_cons]
    omega
  · have less := (List.dropWhile_suffix (!isSeparator ·) (l := rest)).length_le
    rw [List.length_cons]
    omega

def normalizeStringGeneric (platform : Platform) (allowAboveRoot : Bool) (path : List UInt8) :
    List UInt8 :=
  let isSeparator := platform.isSeparator
  let separator := platform.separator
  if platform = .windows then
    let (buffer, mark, begin_) := windowsStart path
    let volume := (windowsVolumeNameLen path).1
    -- A volume name alone has nothing to normalize.
    if 0 < volume && path[1]? != some 0x3a && path.length ≤ begin_ then buffer
    else
      let rest := path.drop begin_
      let leads := (allowAboveRoot || 0 < volume) && (rest.head?.map isSeparator).getD false
      let normalized :=
        if leads then
          normalizeElements isSeparator separator allowAboveRoot buffer.length (rest.drop 1)
            (buffer ++ [separator]) (buffer.length + 1)
        else normalizeElements isSeparator separator allowAboveRoot buffer.length rest buffer mark
      if normalized.length = 2 && normalized[1]? == some 0x3a then
        normalized ++ [if rest.head? == some 0x5c then 0x5c else 0x2e]
      else normalized
  else normalizeElements isSeparator separator allowAboveRoot 0 path [] 0

def normalizeStringNode (platform : Platform) (path : List UInt8) : List UInt8 :=
  if path.isEmpty then [0x2e]
  else
    let isAbsolute := platform.isAbsolute path
    let trailingSeparator := (path.getLast?.map platform.isSeparator).getD false
    let normalized := normalizeStringGeneric platform (!isAbsolute) path
    if normalized.isEmpty then
      if isAbsolute then [platform.separator]
      else if trailingSeparator then [0x2e, platform.separator]
      else [0x2e]
    else
      let closed :=
        if trailingSeparator && !((normalized.getLast?.map platform.isSeparator).getD false) then
          normalized ++ [platform.separator]
        else normalized
      if isAbsolute && platform ≠ .windows then platform.separator :: closed else closed

def joinStringBuf (platform : Platform) (parts : List (List UInt8)) : List UInt8 :=
  let joined := [platform.separator].intercalate (parts.filter fun part => !part.isEmpty)
  if joined.isEmpty then [0x2e] else normalizeStringNode platform joined

end Bun.Paths
