/-
Reading one reply of the RESP protocol.

A reader stands at a place of a buffer.  A reply starts with the byte of its type.  The simple
ones end with their line, the blobs have a length and a payload, and the aggregates have a length
and that many replies inside.  A reply that goes on behind the end of the buffer is reported as
an invalid response.

Doubles are not modelled.  Whatever stands for them comes with a parser and three values.
-/

import Bun.Core.AsciiText
import Bun.Foundation.GrowingReads
import Bun.Semver.Version
import Mathlib.Algebra.Group.Nat.Defs
import Mathlib.Algebra.Group.Int.Defs

set_option autoImplicit false

namespace Bun.Valkey

open Bun.Foundation
open Bun.Semver (ParseIntError parseWithSign)

inductive RedisError where
  | authenticationFailed
  | connectionClosed
  | invalidArgument
  | invalidArray
  | invalidAttribute
  | invalidBigNumber
  | invalidBlobError
  | invalidBoolean
  | invalidBulkString
  | invalidCommand
  | invalidDouble
  | invalidErrorString
  | invalidInteger
  | invalidMap
  | invalidNull
  | invalidPush
  | invalidResponse
  | invalidResponseType
  | invalidSet
  | invalidSimpleString
  | invalidVerbatimString
  | jsError
  | outOfMemory
  | unsupportedProtocol
  | connectionTimeout
  | idleTimeout
  | nestingDepthExceeded
  | lineTooLong
  | serverError
deriving DecidableEq, Repr

inductive RESPType where
  | simpleString
  | error
  | integer
  | bulkString
  | array
  | null
  | double
  | boolean
  | blobError
  | verbatimString
  | map
  | set
  | attribute
  | push
  | bigNumber
deriving DecidableEq, Repr

def RESPType.fromByte (byte : UInt8) : Option RESPType :=
  if byte = 0x2b then some .simpleString
  else if byte = 0x2d then some .error
  else if byte = 0x3a then some .integer
  else if byte = 0x24 then some .bulkString
  else if byte = 0x2a then some .array
  else if byte = 0x5f then some .null
  else if byte = 0x2c then some .double
  else if byte = 0x23 then some .boolean
  else if byte = 0x21 then some .blobError
  else if byte = 0x3d then some .verbatimString
  else if byte = 0x25 then some .map
  else if byte = 0x7e then some .set
  else if byte = 0x7c then some .attribute
  else if byte = 0x3e then some .push
  else if byte = 0x28 then some .bigNumber
  else none

class Doubles (δ : Type) where
  infinity : δ
  negInfinity : δ
  nan : δ
  parseF64 : List UInt8 → Option δ

inductive RESPValue (δ : Type) where
  | simpleString (text : List UInt8)
  | error (text : List UInt8)
  | integer (int : ℤ)
  | bulkString (text : Option (List UInt8))
  | array (values : List (RESPValue δ))
  | null
  | double (d : δ)
  | boolean (b : Bool)
  | verbatimString (format content : List UInt8)
  | map (entries : List (RESPValue δ × RESPValue δ))
  | set (values : List (RESPValue δ))
  | attribute (attributes : List (RESPValue δ × RESPValue δ)) (value : RESPValue δ)
  | push (kind : List UInt8) (data : List (RESPValue δ))
  | bigNumber (text : List UInt8)

structure ValkeyReader where
  buffer : List UInt8
  pos : ℕ
  crlfSkip : ℕ
deriving DecidableEq, Repr

def ValkeyReader.init (buffer : List UInt8) : ValkeyReader :=
  { buffer := buffer, pos := 0, crlfSkip := 0 }

abbrev ReadM (α : Type) : Type :=
  Read ValkeyReader RedisError α

def maxNestingDepth : ℕ := 128

def maxBulkLen : ℕ := 512 * 1024 * 1024

def maxLineLen : ℕ := maxBulkLen

/-! ### Bytes, lines and numbers -/

def readByte : ReadM UInt8 := fun reader =>
  match reader.buffer[reader.pos]? with
  | none => (.error .invalidResponse, reader)
  | some byte => (.ok byte, { reader with pos := reader.pos + 1 })

/-- Whether a carriage return and a line feed stand at an index. -/
def isCrlfAt (buffer : List UInt8) (i : ℕ) : Bool :=
  buffer[i]? == some 0x0d && buffer[i + 1]? == some 0x0a

/-- The first line end from an index on and below a limit. -/
def findCrlf (buffer : List UInt8) (start limit : ℕ) : Option ℕ :=
  (List.range' start (limit - start)).find? (isCrlfAt buffer)

def readUntilCrlf : ReadM (List UInt8) := fun reader =>
  let buffer := reader.buffer.drop reader.pos
  let limit := min buffer.length (maxLineLen + 1)
  let start := min reader.crlfSkip limit
  match findCrlf buffer start limit with
  | some i => (.ok (buffer.take i), { reader with pos := reader.pos + i + 2, crlfSkip := 0 })
  | none =>
      if buffer.length > maxLineLen + 1 then
        (.error .lineTooLong, { reader with crlfSkip := 0 })
      else (.error .invalidResponse, { reader with crlfSkip := 0 })

/-- The signed 64-bit instance of `parse_int`, for the radix ten. -/
def parseInt (buf : List UInt8) : Except ParseIntError ℤ :=
  match buf with
  | [] => .error .invalidCharacter
  | first :: rest => do
      let digits := if first = 0x2b ∨ first = 0x2d then rest else first :: rest
      let acc ← parseWithSign digits 10
      if first = 0x2d then
        if acc ≤ 2 ^ 63 then .ok (-(acc : ℤ)) else .error .overflow
      else if acc < 2 ^ 63 then .ok (acc : ℤ) else .error .overflow

def lineOf {α : Type} (parse : List UInt8 → Except RedisError α) : ReadM α := do
  let str ← readUntilCrlf
  Read.ofExcept (parse str)

def readInteger : ReadM ℤ :=
  lineOf fun str => (parseInt str).mapError fun _ => .invalidInteger

/-- The bytes of a payload, without anything behind them. -/
def takeBytes (len : ℕ) : ReadM (List UInt8) := fun reader =>
  if reader.pos + len > reader.buffer.length then (.error .invalidResponse, reader)
  else (.ok ((reader.buffer.drop reader.pos).take len), { reader with pos := reader.pos + len })

def readPayload (invalid : RedisError) (len : ℕ) : ReadM (List UInt8) := do
  let str ← takeBytes len
  let crlf ← readUntilCrlf
  if crlf = [] then pure str else Read.fail invalid

/-- What is made of a blob whose length may not be negative. -/
def blobOf {α : Type} (invalid : RedisError) (parse : List UInt8 → Except RedisError α) :
    ReadM α := do
  let len ← readInteger
  if 0 ≤ len ∧ len ≤ maxBulkLen then do
    let str ← readPayload invalid len.toNat
    Read.ofExcept (parse str)
  else Read.fail invalid

section

variable {δ : Type} [Doubles δ]

def readDouble : ReadM δ :=
  lineOf fun str =>
    if str = ascii "inf" then .ok Doubles.infinity
    else if str = ascii "-inf" then .ok Doubles.negInfinity
    else if str = ascii "nan" then .ok Doubles.nan
    else
      match Doubles.parseF64 str with
      | some value => .ok value
      | none => .error .invalidDouble

def readBoolean : ReadM Bool :=
  lineOf fun str =>
    if str = [0x74] then .ok true
    else if str = [0x66] then .ok false
    else .error .invalidBoolean

def readVerbatimString : ReadM (RESPValue δ) :=
  blobOf .invalidVerbatimString fun contentWithFormat =>
    if contentWithFormat.length < 4 ∨ contentWithFormat[3]? ≠ some 0x3a then
      .error .invalidVerbatimString
    else .ok (.verbatimString (contentWithFormat.take 3) (contentWithFormat.drop 4))

/-! ### Replies -/

def RESPType.isAggregate : RESPType → Bool
  | .array | .map | .set | .attribute | .push => true
  | _ => false

def readScalar : RESPType → ReadM (RESPValue δ)
  | .simpleString => lineOf fun str => .ok (.simpleString str)
  | .error => lineOf fun str => .ok (.error str)
  | .integer => do
      let int ← readInteger
      pure (.integer int)
  | .bulkString => do
      let len ← readInteger
      if len < 0 then pure (.bulkString none)
      else if len > maxBulkLen then Read.fail .invalidBulkString
      else do
        let str ← readPayload .invalidBulkString len.toNat
        Read.ofExcept (.ok (.bulkString (some str)))
  | .null => lineOf fun str => if str = [] then .ok .null else .error .invalidNull
  | .double => do
      let d ← readDouble
      pure (.double d)
  | .boolean => do
      let b ← readBoolean
      pure (.boolean b)
  | .blobError => blobOf .invalidBlobError fun str => .ok (.error str)
  | .verbatimString => readVerbatimString
  | .bigNumber => lineOf fun str => .ok (.bigNumber str)
  | _ => Read.fail .invalidResponseType

/-- The name of a push message, which its first element is. -/
def pushKind : RESPValue δ → Option (List UInt8)
  | .simpleString str => some str
  | .bulkString maybeStr => maybeStr
  | _ => none

/-- The replies that have others inside, given how one of these is read. -/
def readAggregate (readValue : ReadM (RESPValue δ)) : RESPType → ReadM (RESPValue δ)
  | .array => do
      let len ← readInteger
      if len < 0 then pure .null
      else do
        let array ← readValue.times len.toNat
        pure (.array array)
  | .map => do
      let len ← readInteger
      if len < 0 then Read.fail .invalidMap
      else do
        let entries ← (readValue.pair readValue).times len.toNat
        pure (.map entries)
  | .set => do
      let len ← readInteger
      if len < 0 then Read.fail .invalidSet
      else do
        let set ← readValue.times len.toNat
        pure (.set set)
  | .attribute => do
      let len ← readInteger
      if len < 0 then Read.fail .invalidAttribute
      else do
        let attrs ← (readValue.pair readValue).times len.toNat
        let value ← readValue
        pure (.attribute attrs value)
  | .push => do
      let len ← readInteger
      if len ≤ 0 then Read.fail .invalidPush
      else do
        let pushType ← readValue
        match pushKind pushType with
        | none => Read.fail .invalidPush
        | some kind => do
            let data ← readValue.times (len - 1).toNat
            pure (.push kind data)
  | _ => Read.fail .invalidResponseType

def readValueWithDepth (depth : ℕ) : ReadM (RESPValue δ) := do
  let typeByte ← readByte
  match RESPType.fromByte typeByte with
  | none => Read.fail .invalidResponseType
  | some ty =>
      if ty.isAggregate then
        if deep : depth ≥ maxNestingDepth then Read.fail .nestingDepthExceeded
        else readAggregate (readValueWithDepth (depth + 1)) ty
      else readScalar ty
termination_by maxNestingDepth - depth
decreasing_by omega

def readValue : ReadM (RESPValue δ) :=
  readValueWithDepth 0

end

end Bun.Valkey
