/-
A growing buffer of strings that stores a text it has already stored only once.

A pool remembers one handle for each hash.  A text with a known hash is compared with the text
of that handle, so that texts with equal hashes stay apart.  The pool is a function here; it
and the buffer may have any content before the first call.
-/

import Bun.Semver.SemverString
import Mathlib.Logic.Function.Basic

set_option autoImplicit false

namespace Bun.Semver

open Bun.Foundation.LittleEndian

/-- `StringPool`, by hash. -/
abbrev StringPool :=
  UInt64 → Option SemverString

structure Buf where
  bytes : List UInt8
  pool : StringPool

namespace SemverString

def initAppend (bytes text : List UInt8) : SemverString × List UInt8 :=
  let items := bytes ++ text
  (pack (Pointer.init (items.length - text.length) text), items)

end SemverString

namespace Buf

open SemverString

def appendWithHash (buf : Buf) (text : List UInt8) (hash : UInt64) : SemverString × Buf :=
  if inlined : canInline text = true then (initInline text (canInline_short inlined), buf)
  else
    match buf.pool hash with
    | some found =>
        if found.slice buf.bytes = text then (found, buf)
        else
          let (new, bytes) := initAppend buf.bytes text
          (new, { buf with bytes })
    | none =>
        let (new, bytes) := initAppend buf.bytes text
        (new, { bytes, pool := Function.update buf.pool hash (some new) })

variable (stringHash : List UInt8 → UInt64)

def append (buf : Buf) (text : List UInt8) : SemverString × Buf :=
  if inlined : canInline text = true then (initInline text (canInline_short inlined), buf)
  else buf.appendWithHash text (stringHash text)

end Buf

inductive AppendCall where
  | append (text : List UInt8)
  | appendWithHash (text : List UInt8) (hash : UInt64)

namespace AppendCall

def text : AppendCall → List UInt8
  | append text => text
  | appendWithHash text _ => text

def hash (stringHash : List UInt8 → UInt64) : AppendCall → UInt64
  | append text => stringHash text
  | appendWithHash _ hash => hash

def perform (stringHash : List UInt8 → UInt64) (buf : Buf) : AppendCall → SemverString × Buf
  | append text => buf.append stringHash text
  | appendWithHash text hash => buf.appendWithHash text hash

end AppendCall

/-- The handles that the calls return, in their order, and the buffer behind them. -/
def Buf.run (stringHash : List UInt8 → UInt64) (buf : Buf) :
    List AppendCall → List SemverString × Buf
  | [] => ([], buf)
  | call :: calls =>
      let (handle, buf) := call.perform stringHash buf
      let (handles, last) := Buf.run stringHash buf calls
      (handle :: handles, last)

/-! ### One call -/

open SemverString

variable {stringHash : List UInt8 → UInt64}

def Buf.IsPooled (buf : Buf) (hash : UInt64) (text : List UInt8) : Prop :=
  ∃ found, buf.pool hash = some found ∧ found.slice buf.bytes = text

/-- What a handle can say: a short text has no NUL, and a longer one that is new starts below
4 GiB and has less than 2 GiB. -/
def Buf.Storable (buf : Buf) (hash : UInt64) (text : List UInt8) : Prop :=
  (canInline text = true → 0 ∉ text) ∧
    (canInline text = false → buf.IsPooled hash text ∨
      buf.bytes.length < 2 ^ 32 ∧ text.length < 2 ^ 31)

theorem AppendCall.perform_eq (buf : Buf) (call : AppendCall) :
    call.perform stringHash buf = buf.appendWithHash call.text (call.hash stringHash) := by
  cases call with
  | append text =>
      change buf.append stringHash text = buf.appendWithHash text (stringHash text)
      by_cases inlined : canInline text = true
      · rw [Buf.append, Buf.appendWithHash, dif_pos inlined, dif_pos inlined]
      · rw [Buf.append, dif_neg inlined]
  | appendWithHash text hash => rfl

theorem SemverString.slice_append {self : SemverString} {bytes : List UInt8}
    (isStable : self.isInline = true ∨ self.slice bytes ≠ []) (more : List UInt8) :
    self.slice (bytes ++ more) = self.slice bytes := by
  by_cases isInline : self.isInline = true
  · rw [slice, slice, if_pos ((isInline_iff self).mp isInline),
      if_pos ((isInline_iff self).mp isInline)]
  · have isPointer := Bool.eq_false_of_not_eq_true isInline
    have notEmpty := isStable.resolve_left isInline
    rw [slice_of_pointer isPointer] at notEmpty ⊢
    rw [slice_of_pointer isPointer]
    unfold Pointer.get? slice? at notEmpty ⊢
    by_cases inside : self.ptr.off.toNat + self.ptr.len.toNat ≤ bytes.length
    · rw [if_pos inside, if_pos (by rw [List.length_append]; omega), List.drop_append_of_le_length
        (by omega), List.take_append_of_le_length (by rw [List.length_drop]; omega)]
    · rw [if_neg inside] at notEmpty
      exact absurd rfl notEmpty

theorem slice_initAppend {bytes text : List UInt8} (startFits : bytes.length < 2 ^ 32)
    (lengthFits : text.length < 2 ^ 31) :
    (initAppend bytes text).1.slice (initAppend bytes text).2 = text := by
  have start : (bytes ++ text).length - text.length = bytes.length := by
    rw [List.length_append, Nat.add_sub_cancel]
  have isThere := slice?_middle bytes text []
  rw [List.append_nil] at isThere
  rw [initAppend]
  dsimp only
  rw [slice_of_pointer (isInline_pack _), start, get?_pack_init isThere startFits lengthFits]
  rfl

/-- One call returns a handle of its text, and the buffer only grows. -/
theorem Buf.appendWithHash_spec {buf : Buf} {text : List UInt8} {hash : UInt64}
    (storable : buf.Storable hash text) :
    ((buf.appendWithHash text hash).1.isInline = true ∨ text ≠ []) ∧
      (buf.appendWithHash text hash).1.slice (buf.appendWithHash text hash).2.bytes = text ∧
      ∃ more, (buf.appendWithHash text hash).2.bytes = buf.bytes ++ more := by
  unfold Buf.appendWithHash
  by_cases inlined : canInline text = true
  · rw [dif_pos inlined]
    exact ⟨Or.inl (isInline_initInline inlined),
      slice_initInline_of_nulFree inlined (storable.1 inlined) buf.bytes,
      [], (List.append_nil _).symm⟩
  · rw [dif_neg inlined]
    have long := Bool.eq_false_of_not_eq_true inlined
    have notEmpty : text ≠ [] := by
      rintro rfl
      exact inlined rfl
    refine ⟨Or.inr notEmpty, ?_⟩
    rcases storable.2 long with ⟨found, isFound, isText⟩ | ⟨startFits, lengthFits⟩
    · rw [isFound]
      dsimp only
      rw [if_pos isText]
      exact ⟨isText, [], (List.append_nil _).symm⟩
    · have isNew := slice_initAppend startFits lengthFits
      cases buf.pool hash with
      | none => exact ⟨isNew, text, rfl⟩
      | some found =>
          dsimp only
          by_cases isText : found.slice buf.bytes = text
          · rw [if_pos isText]
            exact ⟨isText, [], (List.append_nil _).symm⟩
          · rw [if_neg isText]
            exact ⟨isNew, text, rfl⟩

/-! ### Runs -/

/-- Every call of a run can store its text where the run has come to. -/
def Buf.AllStorable (stringHash : List UInt8 → UInt64) (buf : Buf) : List AppendCall → Prop
  | [] => True
  | call :: calls =>
      buf.Storable (call.hash stringHash) call.text ∧
        Buf.AllStorable stringHash (call.perform stringHash buf).2 calls

theorem Buf.run_grows (buf : Buf) (calls : List AppendCall)
    (storable : buf.AllStorable stringHash calls) :
    ∃ more, (buf.run stringHash calls).2.bytes = buf.bytes ++ more := by
  induction calls generalizing buf with
  | nil => exact ⟨[], (List.append_nil _).symm⟩
  | cons call calls ih =>
      obtain ⟨first, later⟩ := storable
      obtain ⟨-, -, added, isAdded⟩ := Buf.appendWithHash_spec first
      rw [← AppendCall.perform_eq] at isAdded
      obtain ⟨more, isMore⟩ := ih _ later
      refine ⟨added ++ more, ?_⟩
      rw [← List.append_assoc, ← isAdded, ← isMore]
      rfl

def Buf.GivesBack (stringHash : List UInt8 → UInt64) (buf : Buf) (calls : List AppendCall) : Prop :=
  List.Forall₂ (fun call handle => handle.slice (buf.run stringHash calls).2.bytes = call.text)
    calls (buf.run stringHash calls).1

theorem Buf.GivesBack.cons {buf : Buf} {call : AppendCall} {calls : List AppendCall}
    (isText : (call.perform stringHash buf).1.slice
      ((call.perform stringHash buf).2.run stringHash calls).2.bytes = call.text)
    (later : (call.perform stringHash buf).2.GivesBack stringHash calls) :
    buf.GivesBack stringHash (call :: calls) :=
  List.Forall₂.cons isText later

/-- Whatever the hashes are, no handle gives back another text than its own. -/
theorem Buf.run_givesBack (stringHash : List UInt8 → UInt64) (buf : Buf) (calls : List AppendCall)
    (storable : buf.AllStorable stringHash calls) : buf.GivesBack stringHash calls := by
  induction calls generalizing buf with
  | nil => exact List.Forall₂.nil
  | cons call calls ih =>
      obtain ⟨first, later⟩ := storable
      obtain ⟨isStable, isText, -⟩ := Buf.appendWithHash_spec first
      rw [← AppendCall.perform_eq] at isStable isText
      obtain ⟨more, isMore⟩ := Buf.run_grows _ calls later
      refine Buf.GivesBack.cons ?_ (ih _ later)
      rw [isMore, slice_append (isStable.imp_right fun notEmpty => isText ▸ notEmpty), isText]

/-- Two texts with the same hash, one of them twice, and a short one. -/
theorem Buf.run_givesBack_sameHash :
    (Buf.mk [] fun _ => none).GivesBack (fun _ => 7)
      [.append (ascii "left-pad-1"), .appendWithHash (ascii "right-pad-2") 7,
        .append (ascii "react"), .append (ascii "left-pad-1")] := by
  refine Buf.run_givesBack (fun _ => 7) _ _ ⟨⟨by decide, ?_⟩, ⟨by decide, ?_⟩, ⟨by decide, ?_⟩,
    ⟨by decide, ?_⟩, trivial⟩
  · exact fun _ => Or.inr ⟨by decide, by decide⟩
  · exact fun _ => Or.inr ⟨by decide, by decide⟩
  · exact fun long => absurd long (by decide)
  · exact fun _ => Or.inr ⟨by decide, by decide⟩

/-! ### Texts that a handle cannot say -/

theorem slice_initAppend_twoGiB (bytes text : List UInt8) (long : text.length = 2 ^ 31) :
    (initAppend bytes text).1.slice (initAppend bytes text).2 = [] := by
  have cut : (UInt32.ofNat ((UInt32.ofNat (2 ^ 31)).toNat % 2 ^ 31)).toNat = 0 := by decide
  rw [initAppend]
  dsimp only
  rw [slice_of_pointer (isInline_pack _), ptr_pack, Pointer.get?]
  dsimp only [Pointer.init]
  rw [long, cut]
  unfold slice?
  split
  · rw [List.take_zero]
    rfl
  · rfl

theorem slice_initAppend_fourGiB (bytes text : List UInt8) (full : bytes.length = 2 ^ 32)
    (short : text.length < 2 ^ 31) :
    (initAppend bytes text).1.slice (initAppend bytes text).2 = bytes.take text.length := by
  have start : (bytes ++ text).length - text.length = 2 ^ 32 := by
    rw [List.length_append, Nat.add_sub_cancel, full]
  have cut : (UInt32.ofNat (2 ^ 32)).toNat = 0 := by decide
  have kept : (UInt32.ofNat text.length).toNat = text.length :=
    UInt32.toNat_ofNat_of_lt' (Nat.lt_trans short (by decide))
  have inside : text.length ≤ bytes.length := full ▸ Nat.le_of_lt (Nat.lt_trans short (by decide))
  have isThere := slice?_middle [] (bytes.take text.length) (bytes.drop text.length ++ text)
  rw [List.nil_append, ← List.append_assoc, List.take_append_drop, List.length_nil,
    List.length_take_of_le inside] at isThere
  rw [initAppend]
  dsimp only
  rw [slice_of_pointer (isInline_pack _), ptr_pack, Pointer.get?]
  dsimp only [Pointer.init]
  rw [start, cut, kept, Nat.mod_eq_of_lt short, kept, isThere]
  rfl

theorem canInline_of_long {text : List UInt8} (long : maxInlineLen < text.length) :
    canInline text = false := by
  rw [← Bool.not_eq_true, canInline_iff]
  omega

theorem givesBack_single {text : List UInt8} (bytes : List UInt8)
    (long : maxInlineLen < text.length)
    (givesBack : (Buf.mk bytes fun _ => none).GivesBack stringHash [.append text]) :
    (initAppend bytes text).1.slice (initAppend bytes text).2 = text := by
  have isNew : AppendCall.perform stringHash (Buf.mk bytes fun _ => none) (.append text) =
      ((initAppend bytes text).1, Buf.mk (initAppend bytes text).2
        (Function.update (fun _ => none) (stringHash text) (some (initAppend bytes text).1))) := by
    rw [AppendCall.perform_eq, Buf.appendWithHash,
      dif_neg (by rw [AppendCall.text, canInline_of_long long]; decide)]
    rfl
  have isText := (List.forall₂_cons.mp givesBack).1
  change (AppendCall.perform stringHash _ (.append text)).1.slice
    (AppendCall.perform stringHash _ (.append text)).2.bytes = text at isText
  rwa [isNew] at isText

/-- A NUL ends a short text, and neither a length of 2 GiB nor a start at 4 GiB fits. -/
theorem Buf.run_loses :
    (¬ (Buf.mk [] fun _ => none).GivesBack (fun _ => 0) [.append [0x61, 0, 0x62]]) ∧
    (¬ (Buf.mk [] fun _ => none).GivesBack (fun _ => 0)
      [.append (List.replicate (2 ^ 31) 0x61)]) ∧
    ¬ (Buf.mk (List.replicate (2 ^ 32) 0x61) fun _ => none).GivesBack (fun _ => 0)
      [.append (ascii "right-pad")] := by
  refine ⟨?_, ?_, ?_⟩
  · intro givesBack
    have inlined : canInline [0x61, 0, 0x62] = true := by decide
    have isText : (initInline [0x61, 0, 0x62] (canInline_short inlined)).slice [] =
        [0x61, 0, 0x62] := (List.forall₂_cons.mp givesBack).1
    rw [slice_initInline inlined] at isText
    revert isText
    decide
  · intro givesBack
    have long : (List.replicate (2 ^ 31) (0x61 : UInt8)).length = 2 ^ 31 := List.length_replicate
    have isText := givesBack_single [] (by rw [long]; decide) givesBack
    rw [slice_initAppend_twoGiB [] _ long] at isText
    rw [← isText] at long
    exact absurd long (by decide)
  · intro givesBack
    have full : (List.replicate (2 ^ 32) (0x61 : UInt8)).length = 2 ^ 32 := List.length_replicate
    have isText := givesBack_single _ (by decide) givesBack
    rw [slice_initAppend_fourGiB _ _ full (by decide), List.take_replicate,
      Nat.min_eq_left (by decide)] at isText
    revert isText
    decide

end Bun.Semver
