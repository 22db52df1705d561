/-
Symbols as the renamers see them.

A symbol is reached through its reference.  References of merged symbols lead to one
of them, which is the one that gets a name.
-/

import Mathlib.Data.Nat.Notation

set_option autoImplicit false

namespace Bun.Renamer

structure Ref where
  innerIndex : ℕ
  sourceIndex : ℕ
deriving DecidableEq, Repr, Inhabited

inductive Kind where
  | unbound
  | hoisted
  | hoistedFunction
  | catchIdentifier
  | generatorOrAsyncFunction
  | arguments
  | class_
  | privateField
  | privateMethod
  | privateGet
  | privateSet
  | privateGetSetPair
  | privateStaticField
  | privateStaticMethod
  | privateStaticGet
  | privateStaticSet
  | privateStaticGetSetPair
  | label
  | tsEnum
  | tsNamespace
  | import_
  | constant
  | localCss
  | other
deriving DecidableEq, Repr, Inhabited

def Kind.isPrivate : Kind → Bool
  | .privateField | .privateMethod | .privateGet | .privateSet | .privateGetSetPair
  | .privateStaticField | .privateStaticMethod | .privateStaticGet | .privateStaticSet
  | .privateStaticGetSetPair => true
  | _ => false

inductive SlotNamespace where
  | mustNotBeRenamed
  | default
  | label
  | privateName
  | mangledProp
deriving DecidableEq, Repr

structure Symbol where
  originalName : List UInt8
  kind : Kind := .other
  mustNotBeRenamed : Bool := false
  mustStartWithCapitalLetterForJsx : Bool := false
  nestedScopeSlot : Option ℕ := none

def Symbol.slotNamespace (symbol : Symbol) : SlotNamespace :=
  if symbol.kind = .unbound ∨ symbol.mustNotBeRenamed then .mustNotBeRenamed
  else if symbol.kind.isPrivate then .privateName
  else if symbol.kind = .label then .label
  else .default

/-- The symbols of all files, with where their links lead. -/
structure SymbolMap where
  get : Ref → Symbol
  follow : Ref → Ref
  followPrinted : Ref → Ref
  follow_follow : ∀ ref, follow (follow ref) = follow ref

end Bun.Renamer
