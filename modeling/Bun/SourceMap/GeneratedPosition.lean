/-
Two ways to follow the generated position: the printer's builder, window by window,
and `LineColumnOffset::advance`, over a whole text.

Both are first rewritten as scans over characters.  They differ at a carriage
return: `advance` looks at the next byte, the builder at the byte after that one.
Their columns always agree; their lines agree when the builder passes over as many
carriage returns as there are CRLF pairs.
-/

import Mathlib.Data.List.TakeWhile
import Bun.SourceMap.ChunkBuilder

set_option autoImplicit false

namespace Bun.SourceMap

open Bun.Core

/-! ### `LineColumnOffset::advance` -/

def LineColumnOffset.addColumns (self : LineColumnOffset) (columns : Nat) : LineColumnOffset :=
  { self with columns := self.columns + Int32.ofNat columns }

def LineColumnOffset.nextLine (self : LineColumnOffset) : LineColumnOffset :=
  { lines := self.lines + 1, columns := 0 }

theorem lt_of_indexOfNewlineOrNonAscii {slice : List UInt8} {offset found : Nat}
    (here : indexOfNewlineOrNonAscii slice offset = some found) : found < slice.length := by
  rw [indexOfNewlineOrNonAscii_eq, Option.map_eq_some_iff] at here
  obtain ⟨index, foundAt, rfl⟩ := here
  have inside := (List.findIdx?_eq_some_iff_getElem.mp foundAt).1
  rw [List.length_drop] at inside
  omega

/-- The cursor on the code point at byte `i`. -/
def cursorAt (input : List UInt8) (i : Nat) : Cursor :=
  (codepointNext input { i := i, width := 0, c := 0 }).2

/-- The loop of `advance` from `offset`: the position, and the offset where the last
run of plain ASCII starts. -/
def advanceLoop (input : List UInt8) (this : LineColumnOffset) (offset : Nat) :
    LineColumnOffset × Nat :=
  match _found : indexOfNewlineOrNonAscii input offset with
  | none => (this, offset)
  | some i =>
      let this := this.addColumns (i - offset)
      if (cursorAt input i).width = 0 then advanceLoop input (this.addColumns 1) (i + 1)
      else if (cursorAt input i).c = 0x0D ∨ (cursorAt input i).c = 0x0A ∨
          (cursorAt input i).c = 0x2028 ∨ (cursorAt input i).c = 0x2029 then
        if (cursorAt input i).c = 0x0D ∧ input[i + 1]? = some 0x0A then
          advanceLoop input (this.addColumns 1) (i + (cursorAt input i).width)
        else advanceLoop input this.nextLine (i + (cursorAt input i).width)
      else
        advanceLoop input (this.addColumns (if (cursorAt input i).c > 0xFFFF then 2 else 1))
          (i + (cursorAt input i).width)
termination_by input.length - offset
decreasing_by
  all_goals
    have inside := lt_of_indexOfNewlineOrNonAscii _found
    have beyond := le_of_indexOfNewlineOrNonAscii _found
    omega

/-- `advance`, with nothing where the length of the last run does not fit an `i32`. -/
def LineColumnOffset.advance (self : LineColumnOffset) (input : List UInt8) :
    Option LineColumnOffset :=
  let scanned := advanceLoop input self 0
  let remain := input.length - scanned.2
  if remain < 2 ^ 31 then some (scanned.1.addColumns remain) else none

/-! ### Characters -/

def isTerminator (c : Char) : Bool :=
  c.toNat = 0x0D || c.toNat = 0x0A || c.toNat = 0x2028 || c.toNat = 0x2029

def utf16Units (c : Char) : Nat := if c.toNat > 0xFFFF then 2 else 1

def isPlain (c : Char) : Bool := 0x20 ≤ c.toNat && c.toNat ≤ 127

theorem encode_ascii {c : Char} (ascii : c.toNat ≤ 127) :
    String.utf8EncodeChar c = [UInt8.ofNat c.toNat] := by
  unfold String.utf8EncodeChar
  exact if_pos ascii

theorem encode_length_pos (c : Char) : 0 < (String.utf8EncodeChar c).length := by
  obtain ⟨first, rest, encoded, -⟩ := decode_utf8EncodeChar c 0
  rw [encoded]
  exact Nat.zero_lt_succ _

theorem encode_plain {c : Char} (plain : isPlain c = true) :
    String.utf8EncodeChar c = [UInt8.ofNat c.toNat] ∧
      isNewlineOrNonAscii (UInt8.ofNat c.toNat) = false := by
  have bounds : 0x20 ≤ c.toNat ∧ c.toNat ≤ 127 := by simpa [isPlain] using plain
  refine ⟨encode_ascii bounds.2, ?_⟩
  · have value : (UInt8.ofNat c.toNat).toNat = c.toNat := by
      rw [UInt8.toNat_ofNat']
      omega
    unfold isNewlineOrNonAscii
    rw [Bool.or_eq_false_iff, decide_eq_false_iff_not, decide_eq_false_iff_not, gt_iff_lt,
      UInt8.lt_iff_toNat_lt, UInt8.lt_iff_toNat_lt, value]
    refine ⟨?_, ?_⟩
    · change ¬127 < c.toNat
      omega
    · change ¬c.toNat < 32
      omega

theorem encode_special {c : Char} (special : isPlain c = false) :
    ∃ first rest, String.utf8EncodeChar c = first :: rest ∧ isNewlineOrNonAscii first = true := by
  obtain ⟨first, rest, encoded, -, -, ascii, single⟩ := decode_utf8EncodeChar c 0
  refine ⟨first, rest, encoded, ?_⟩
  unfold isNewlineOrNonAscii
  rw [Bool.or_eq_true, decide_eq_true_eq, decide_eq_true_eq, gt_iff_lt, UInt8.lt_iff_toNat_lt,
    UInt8.lt_iff_toNat_lt]
  by_cases small : first < 0x80
  · have value := (single small).2
    have below := ascii.mp small
    have outside : ¬(0x20 ≤ c.toNat ∧ c.toNat ≤ 127) := by simpa [isPlain] using special
    right
    change first.toNat < 32
    omega
  · left
    rw [UInt8.lt_iff_toNat_lt] at small
    change ¬first.toNat < 128 at small
    change 127 < first.toNat
    omega

/-- The byte scan over a text ends at its first character that is not plain. -/
theorem findIdx?_encodeText (text : List Char) :
    (encodeText text).findIdx? isNewlineOrNonAscii =
      if text.dropWhile isPlain = [] then none else some (text.takeWhile isPlain).length := by
  induction text with
  | nil => rfl
  | cons c text ih =>
      rw [encodeText_cons]
      cases plain : isPlain c with
      | true =>
          obtain ⟨encoded, skipped⟩ := encode_plain plain
          rw [encoded, List.singleton_append, List.findIdx?_cons, skipped, ih,
            List.dropWhile_cons, List.takeWhile_cons, if_pos plain, if_pos plain]
          simp only [Bool.false_eq_true, if_false, List.length_cons]
          split <;> rfl
      | false =>
          obtain ⟨first, rest, encoded, stops⟩ := encode_special plain
          rw [encoded, List.cons_append, List.findIdx?_cons, stops, if_pos rfl, List.dropWhile_cons,
            List.takeWhile_cons, if_neg (by simp [plain]), if_neg (by simp [plain])]
          rfl

theorem encodeText_plain_length (text : List Char) (plain : ∀ c ∈ text, isPlain c = true) :
    (encodeText text).length = text.length := by
  induction text with
  | nil => rfl
  | cons c text ih =>
      rw [encodeText_cons, (encode_plain (plain c List.mem_cons_self)).1, List.length_append,
        ih fun later member => plain later (List.mem_cons_of_mem _ member), List.length_singleton,
        List.length_cons]
      omega

/-- The scan from a character boundary: it runs over the plain characters there. -/
theorem indexOfNewlineOrNonAscii_encodeText {slice : List UInt8} {offset : Nat} {rest : List Char}
    (here : slice.drop offset = encodeText rest) :
    indexOfNewlineOrNonAscii slice offset =
        (if rest.dropWhile isPlain = [] then none
          else some (offset + (rest.takeWhile isPlain).length)) ∧
      slice.drop (offset + (rest.takeWhile isPlain).length) =
        encodeText (rest.dropWhile isPlain) := by
  have taken : (encodeText (rest.takeWhile isPlain)).length = (rest.takeWhile isPlain).length :=
    encodeText_plain_length _ fun c member => by
      have all := List.all_takeWhile (p := isPlain) (l := rest)
      exact List.all_eq_true.mp all c member
  refine ⟨?_, ?_⟩
  · rw [indexOfNewlineOrNonAscii_eq, here, findIdx?_encodeText]
    split
    · rfl
    · rw [Option.map_some, Nat.add_comm]
  · have split : encodeText rest =
        encodeText (rest.takeWhile isPlain) ++ encodeText (rest.dropWhile isPlain) := by
      rw [← encodeText_append, List.takeWhile_append_dropWhile]
    rw [← List.drop_drop, here, split, ← taken, List.drop_left]

theorem getElem?_of_drop_eq {α : Type} {items rest : List α} {offset : Nat}
    (here : items.drop offset = rest) (index : Nat) : items[offset + index]? = rest[index]? := by
  rw [← here, List.getElem?_drop]

theorem isTerminator_iff (c : Char) :
    isTerminator c = true ↔ ((c.toNat : Int) = 0x0D ∨ (c.toNat : Int) = 0x0A ∨
      (c.toNat : Int) = 0x2028 ∨ (c.toNat : Int) = 0x2029) := by
  simp only [isTerminator, Bool.or_eq_true, decide_eq_true_eq]
  omega

theorem utf16Units_eq (c : Char) : (if (c.toNat : Int) > 0xFFFF then 2 else 1) = utf16Units c := by
  unfold utf16Units
  by_cases astral : c.toNat > 0xFFFF
  · rw [if_pos astral, if_pos (by omega)]
  · rw [if_neg astral, if_neg (by omega)]

theorem isPlain_not_terminator {c : Char} (plain : isPlain c = true) :
    isTerminator c = false ∧ utf16Units c = 1 := by
  have bounds : 0x20 ≤ c.toNat ∧ c.toNat ≤ 127 := by simpa [isPlain] using plain
  refine ⟨?_, ?_⟩
  · by_contra terminator
    rw [Bool.not_eq_false, isTerminator_iff] at terminator
    omega
  · rw [utf16Units, if_neg (by omega)]

/-- A character boundary that starts with `c`, read back: the cursor's code point and
width. -/
theorem rune_of_drop {input : List UInt8} {i : Nat} {c : Char} {rest : List Char}
    (here : input.drop i = encodeText (c :: rest)) :
    ∃ first, input[i]? = some first ∧
      wtf8ByteSequenceLength first = (String.utf8EncodeChar c).length ∧
      (cursorAt input i).c = c.toNat ∧
      (cursorAt input i).width = (String.utf8EncodeChar c).length ∧
      Printer.Builder.runeAt input i first =
        ((c.toNat : Int), i + (String.utf8EncodeChar c).length) ∧
      input.drop (i + (String.utf8EncodeChar c).length) = encodeText rest := by
  rw [encodeText_cons] at here
  have afterEq : input.drop (i + (String.utf8EncodeChar c).length) = encodeText rest := by
    rw [← List.drop_drop, here, List.drop_left]
  obtain ⟨first, tail, encoded, lengthEq, decoded, ascii, single⟩ :=
    decode_utf8EncodeChar c unicodeReplacement
  obtain ⟨_, _, -, -, decodedMinus, -, -⟩ := decode_utf8EncodeChar c (-1)
  have takenEq : (input.drop i).take (String.utf8EncodeChar c).length = String.utf8EncodeChar c := by
    rw [here, List.take_left]
  refine ⟨first, ?_, lengthEq, ?_⟩
  · have head := getElem?_of_drop_eq here 0
    rw [encoded] at head
    simpa using head
  · have dropCons : input.drop (i + 0) = first :: (tail ++ encodeText rest) := by
      rw [Nat.add_zero, here, encoded, List.cons_append]
    have cursor : (cursorAt input i).c = c.toNat ∧
        (cursorAt input i).width = (String.utf8EncodeChar c).length := by
      unfold cursorAt codepointNext
      dsimp only
      rw [dropCons]
      dsimp only
      by_cases small : first < 0x80
      · rw [if_pos small]
        obtain ⟨tailEq, value⟩ := single small
        refine ⟨by dsimp only; rw [value], ?_⟩
        dsimp only
        rw [encoded, tailEq]
        rfl
      · have notMinus : (c.toNat : Int) ≠ -1 := by omega
        rw [if_neg small, lengthEq, ← dropCons, Nat.add_zero, takenEq, decodedMinus,
          if_neg notMinus]
        exact ⟨rfl, rfl⟩
    refine ⟨cursor.1, cursor.2, ?_, afterEq⟩
    unfold Printer.Builder.runeAt
    dsimp only
    rw [lengthEq, takenEq, decoded]

/-! ### `advance` as a scan over characters -/

theorem addColumns_addColumns (this : LineColumnOffset) (first second : Nat) :
    (this.addColumns first).addColumns second = this.addColumns (first + second) := by
  simp [LineColumnOffset.addColumns, Int32.ofNat_add, Int32.add_assoc]

theorem addColumns_zero (this : LineColumnOffset) : this.addColumns 0 = this := by
  simp [LineColumnOffset.addColumns]

def startsWithLineFeed : List Char → Bool
  | [] => false
  | c :: _ => c.toNat = 0x0A

def advanceText (this : LineColumnOffset) : List Char → LineColumnOffset
  | [] => this
  | c :: rest =>
      if isTerminator c then
        if c.toNat = 0x0D ∧ startsWithLineFeed rest then advanceText (this.addColumns 1) rest
        else advanceText this.nextLine rest
      else advanceText (this.addColumns (utf16Units c)) rest

theorem advanceText_plain (run rest : List Char) (plain : ∀ c ∈ run, isPlain c = true) :
    ∀ this, advanceText this (run ++ rest) = advanceText (this.addColumns run.length) rest := by
  induction run with
  | nil =>
      intro this
      rw [List.nil_append, List.length_nil, addColumns_zero]
  | cons c run ih =>
      intro this
      obtain ⟨notTerminator, oneUnit⟩ := isPlain_not_terminator (plain c List.mem_cons_self)
      rw [List.cons_append, advanceText, notTerminator, oneUnit, if_neg (by simp),
        ih (fun later member => plain later (List.mem_cons_of_mem _ member)),
        addColumns_addColumns, List.length_cons, Nat.add_comm]

/-- The next byte is a line feed exactly when the next character is. -/
theorem head_encodeText (rest : List Char) :
    (encodeText rest)[0]? = some 0x0A ↔ startsWithLineFeed rest = true := by
  cases rest with
  | nil => simp [encodeText, startsWithLineFeed]
  | cons c rest =>
      obtain ⟨first, tail, encoded, -, -, ascii, single⟩ := decode_utf8EncodeChar c 0
      rw [encodeText_cons, encoded]
      simp only [List.cons_append, List.getElem?_cons_zero, Option.some.injEq, startsWithLineFeed,
        decide_eq_true_eq]
      constructor
      · intro lineFeed
        have small : first < 0x80 := by
          rw [lineFeed]
          decide
        rw [← (single small).2, lineFeed]
        rfl
      · intro value
        have small : first < 0x80 := ascii.mpr (by omega)
        apply UInt8.toNat_inj.mp
        rw [(single small).2, value]
        rfl

theorem takeWhile_isPlain_all (text : List Char) : ∀ c ∈ text.takeWhile isPlain, isPlain c = true := by
  intro c member
  exact List.all_eq_true.mp (List.all_takeWhile (p := isPlain) (l := text)) c member

/-- The loop from a character boundary, with the columns of the last run added. -/
theorem advanceLoop_encodeText (rest : List Char) :
    ∀ (input : List UInt8) (this : LineColumnOffset) (offset : Nat),
      offset ≤ input.length → input.drop offset = encodeText rest →
      (advanceLoop input this offset).1.addColumns
          (input.length - (advanceLoop input this offset).2) = advanceText this rest ∧
        offset ≤ (advanceLoop input this offset).2 ∧
        (advanceLoop input this offset).2 ≤ input.length := by
  induction size : rest.length using Nat.strongRecOn generalizing rest with
  | ind count ih =>
      intro input this offset inside here
      obtain ⟨index, atStop⟩ := indexOfNewlineOrNonAscii_encodeText here
      have plain := takeWhile_isPlain_all rest
      have split := List.takeWhile_append_dropWhile (p := isPlain) (l := rest)
      rw [advanceLoop]
      cases stop : rest.dropWhile isPlain with
      | nil =>
          rw [stop, if_pos rfl] at index
          have all : rest.takeWhile isPlain = rest := by rw [stop, List.append_nil] at split; exact split
          have remaining : input.length - offset = rest.length := by
            rw [← List.length_drop, here, encodeText_plain_length rest (by rwa [all] at plain)]
          split
          · have whole := advanceText_plain rest [] (by rwa [all] at plain) this
            rw [List.append_nil] at whole
            refine ⟨?_, Nat.le_refl _, inside⟩
            dsimp only
            rw [remaining, whole]
            rfl
          · rename_i found
            rw [index] at found
            cases found
      | cons c later =>
          rw [stop, if_neg (List.cons_ne_nil _ _)] at index
          rw [stop] at atStop split
          obtain ⟨first, found, -, runeEq, widthEq, -, after⟩ := rune_of_drop atStop
          have lengths := congrArg List.length split
          rw [List.length_append, List.length_cons] at lengths
          have widthPos := encode_length_pos c
          have room : offset + (rest.takeWhile isPlain).length + (String.utf8EncodeChar c).length ≤
              input.length := by
            have remaining := congrArg List.length atStop
            rw [List.length_drop, encodeText_cons, List.length_append] at remaining
            omega
          have scanned : advanceText this rest =
              advanceText (this.addColumns (rest.takeWhile isPlain).length) (c :: later) := by
            conv_lhs => rw [← split]
            exact advanceText_plain _ _ plain this
          rw [scanned]
          -- Each branch continues after `c` with a shorter rest.
          have continued : ∀ moved : LineColumnOffset, _ :=
            fun moved => ih later.length (by omega) later rfl input moved
              (offset + (rest.takeWhile isPlain).length + (String.utf8EncodeChar c).length) room after
          split
          · rename_i none
            rw [index] at none
            cases none
          · rename_i i foundAt
            rw [index] at foundAt
            obtain rfl := Option.some.inj foundAt
            dsimp only
            rw [widthEq, runeEq, if_neg (by omega), Nat.add_sub_cancel_left, advanceText,
              utf16Units_eq]
            have shift : ∀ result : LineColumnOffset × Nat,
                offset + (rest.takeWhile isPlain).length + (String.utf8EncodeChar c).length ≤
                  result.2 → offset ≤ result.2 := by
              intro result beyond
              omega
            by_cases terminator : isTerminator c = true
            · rw [if_pos ((isTerminator_iff c).mp terminator), if_pos terminator]
              by_cases lineFeed : c.toNat = 0x0D ∧ startsWithLineFeed later = true
              · have single : (String.utf8EncodeChar c).length = 1 := by
                  rw [encode_ascii (by omega)]
                  rfl
                have nextByte : input[offset + (rest.takeWhile isPlain).length + 1]? = some 0x0A := by
                  rw [single] at after
                  have head := getElem?_of_drop_eq after 0
                  rw [Nat.add_zero] at head
                  rw [head]
                  exact (head_encodeText later).mpr lineFeed.2
                rw [if_pos ⟨by omega, nextByte⟩, if_pos lineFeed]
                obtain ⟨moved, beyond, within⟩ :=
                  continued ((this.addColumns (rest.takeWhile isPlain).length).addColumns 1)
                exact ⟨moved, shift _ beyond, within⟩
              · have notNext : ¬((c.toNat : Int) = 0x0D ∧
                    input[offset + (rest.takeWhile isPlain).length + 1]? = some 0x0A) := by
                  rintro ⟨isReturn, nextByte⟩
                  have single : (String.utf8EncodeChar c).length = 1 := by
                    rw [encode_ascii (by omega)]
                    rfl
                  rw [single] at after
                  have head := getElem?_of_drop_eq after 0
                  rw [Nat.add_zero, nextByte] at head
                  exact lineFeed ⟨by omega, (head_encodeText later).mp head.symm⟩
                rw [if_neg notNext, if_neg lineFeed]
                obtain ⟨moved, beyond, within⟩ :=
                  continued (this.addColumns (rest.takeWhile isPlain).length).nextLine
                exact ⟨moved, shift _ beyond, within⟩
            · rw [if_neg (by rw [← isTerminator_iff]; exact terminator), if_neg terminator]
              obtain ⟨moved, beyond, within⟩ := continued
                ((this.addColumns (rest.takeWhile isPlain).length).addColumns (utf16Units c))
              exact ⟨moved, shift _ beyond, within⟩

/-- On a text shorter than 2 GiB, `advance` is the scan over its characters. -/
theorem advance_encodeText (this : LineColumnOffset) (text : List Char)
    (fits : (encodeText text).length < 2 ^ 31) :
    this.advance (encodeText text) = some (advanceText this text) := by
  obtain ⟨moved, -, within⟩ := advanceLoop_encodeText text (encodeText text) this 0 (Nat.zero_le _) rfl
  unfold LineColumnOffset.advance
  dsimp only
  rw [if_pos (by omega), moved]

namespace Printer

/-! ### The builder's update as a scan over characters -/

def secondByteIsLineFeed (rest : List Char) : Bool :=
  (encodeText rest)[1]? = some 0x0A

namespace Builder

def scanText (self : Builder) (needsMapping : Bool) : List Char → Builder
  | [] => self
  | c :: rest =>
      if isTerminator c then
        if c.toNat = 0x0D ∧ secondByteIsLineFeed rest then self.scanText needsMapping rest
        else (self.newLine needsMapping).scanText (self.newLine needsMapping).needsMapping rest
      else (self.addColumns (utf16Units c)).scanText needsMapping rest

theorem addColumns_addColumns (self : Builder) (first second : Nat) :
    (self.addColumns first).addColumns second = self.addColumns (first + second) := by
  simp [addColumns, Int32.ofNat_add, Int32.add_assoc]

theorem addColumns_zero (self : Builder) : self.addColumns 0 = self := by
  simp [addColumns]

theorem scanText_plain (run rest : List Char) (plain : ∀ c ∈ run, isPlain c = true) :
    ∀ (self : Builder) (needsMapping : Bool),
      self.scanText needsMapping (run ++ rest) =
        (self.addColumns run.length).scanText needsMapping rest := by
  induction run with
  | nil =>
      intro self needsMapping
      rw [List.nil_append, List.length_nil, addColumns_zero]
  | cons c run ih =>
      intro self needsMapping
      obtain ⟨notTerminator, oneUnit⟩ := isPlain_not_terminator (plain c List.mem_cons_self)
      rw [List.cons_append, scanText, notTerminator, oneUnit, if_neg (by simp),
        ih (fun later member => plain later (List.mem_cons_of_mem _ member)),
        addColumns_addColumns, List.length_cons, Nat.add_comm]

@[simp] theorem newLine_lastGeneratedUpdate (self : Builder) (needsMapping : Bool) :
    (self.newLine needsMapping).lastGeneratedUpdate = self.lastGeneratedUpdate := by
  unfold newLine
  cases needsMapping <;> rfl

theorem slowLoop_encodeText (rest : List Char) :
    ∀ (self : Builder) (front slice : List UInt8) (needsMapping : Bool) (i : Nat),
      self.lastGeneratedUpdate.toNat = front.length → slice.drop i = encodeText rest →
      i ≤ slice.length →
      self.slowLoop (front ++ slice) slice needsMapping i = self.scanText needsMapping rest := by
  induction size : rest.length using Nat.strongRecOn generalizing rest with
  | ind count ih =>
      intro self front slice needsMapping i start here inside
      rw [slowLoop]
      cases rest with
      | nil =>
          have atEnd : slice[i]? = none := by
            have nothing := getElem?_of_drop_eq here 0
            simpa [encodeText] using nothing
          split
          · rfl
          · rename_i found
            rw [atEnd] at found
            cases found
      | cons c rest =>
          obtain ⟨first, found, -, -, -, runeEq, after⟩ := rune_of_drop here
          have widthPos := encode_length_pos c
          have room : i + (String.utf8EncodeChar c).length ≤ slice.length := by
            have remaining := congrArg List.length here
            rw [List.length_drop, encodeText_cons, List.length_append] at remaining
            omega
          split
          · rename_i none
            rw [found] at none
            cases none
          · rename_i first' found'
            rw [found] at found'
            obtain rfl := Option.some.inj found'
            rw [runeEq]
            dsimp only
            rw [List.length_cons] at size
            by_cases hot : 14 ≤ (c.toNat : Int) ∧ (c.toNat : Int) ≤ 127
            · -- The byte scan runs over the plain characters that follow.
              have notTerminator : isTerminator c = false := by
                by_contra terminator
                rw [Bool.not_eq_false, isTerminator_iff] at terminator
                omega
              have oneUnit : utf16Units c = 1 := by rw [utf16Units, if_neg (by omega)]
              have split := List.takeWhile_append_dropWhile (p := isPlain) (l := rest)
              have plain := takeWhile_isPlain_all rest
              obtain ⟨index, atStop⟩ := indexOfNewlineOrNonAscii_encodeText after
              have scanned : self.scanText needsMapping (c :: rest) =
                  (self.addColumns ((rest.takeWhile isPlain).length + 1)).scanText needsMapping
                    (rest.dropWhile isPlain) := by
                rw [scanText, notTerminator, if_neg (by simp), oneUnit]
                conv_lhs => rw [← split]
                rw [scanText_plain _ _ plain, addColumns_addColumns, Nat.add_comm]
              rw [if_pos hot, scanned]
              cases stop : rest.dropWhile isPlain with
              | nil =>
                  rw [stop, if_pos rfl] at index
                  rw [stop, List.append_nil] at split
                  have remaining : slice.length - (i + (String.utf8EncodeChar c).length) =
                      (rest.takeWhile isPlain).length := by
                    rw [← List.length_drop, after]
                    conv_lhs => rw [← split]
                    exact encodeText_plain_length _ plain
                  split
                  · rename_i found
                    rw [index] at found
                    cases found
                  · rw [remaining]
                    rfl
              | cons later laters =>
                  rw [stop, if_neg (List.cons_ne_nil _ _)] at index
                  have lengths := congrArg List.length split
                  rw [stop, List.length_append] at lengths
                  have boundary := lt_of_indexOfNewlineOrNonAscii index
                  split
                  · rename_i j foundAt
                    rw [index] at foundAt
                    obtain rfl := Option.some.inj foundAt
                    rw [Nat.add_sub_cancel_left]
                    exact ih (later :: laters).length (by omega) (later :: laters) rfl
                      (self.addColumns ((rest.takeWhile isPlain).length + 1)) front slice
                      needsMapping _ start (by rw [atStop, stop]) (by omega)
                  · rename_i none
                    rw [index] at none
                    cases none
            · rw [if_neg hot, scanText, utf16Units_eq]
              by_cases terminator : isTerminator c = true
              · rw [if_pos ((isTerminator_iff c).mp terminator), if_pos terminator]
                have lookahead : (front ++ slice)[self.lastGeneratedUpdate.toNat +
                    (i + (String.utf8EncodeChar c).length) + 1]? = (encodeText rest)[1]? := by
                  rw [start, Nat.add_assoc, List.getElem?_append_right (by omega),
                    Nat.add_sub_cancel_left]
                  exact getElem?_of_drop_eq after 1
                rw [lookahead]
                by_cases passed : c.toNat = 0x0D ∧ secondByteIsLineFeed rest = true
                · have bytes : (c.toNat : Int) = 0x0D ∧ (encodeText rest)[1]? = some 0x0A := by
                    refine ⟨by omega, ?_⟩
                    simpa [secondByteIsLineFeed] using passed.2
                  rw [if_pos bytes, if_pos passed]
                  exact ih rest.length (by omega) rest rfl self front slice needsMapping _ start
                    after room
                · have bytes : ¬((c.toNat : Int) = 0x0D ∧ (encodeText rest)[1]? = some 0x0A) := by
                    rintro ⟨isReturn, lineFeed⟩
                    exact passed ⟨by omega, by simpa [secondByteIsLineFeed] using lineFeed⟩
                  rw [if_neg bytes, if_neg passed]
                  exact ih rest.length (by omega) rest rfl (self.newLine needsMapping) front slice _
                    _ (by rw [newLine_lastGeneratedUpdate]; exact start) after room
              · rw [if_neg (by rw [← isTerminator_iff]; exact terminator), if_neg terminator]
                exact ih rest.length (by omega) rest rfl (self.addColumns (utf16Units c)) front
                  slice needsMapping _ start after room

theorem update_encodeText (self : Builder) (front : List UInt8) (window : List Char)
    (start : self.lastGeneratedUpdate.toNat = front.length) :
    self.updateGeneratedLineAndColumn (front ++ encodeText window) =
      { self.scanText self.needsMapping window with
        lastGeneratedUpdate := UInt32.ofNat (front ++ encodeText window).length } := by
  have sliceEq : (front ++ encodeText window).drop self.lastGeneratedUpdate.toNat =
      encodeText window := by
    rw [start, List.drop_left]
  have slow : self.updateSlow (front ++ encodeText window) =
      { self.scanText self.needsMapping window with
        lastGeneratedUpdate := UInt32.ofNat (front ++ encodeText window).length } := by
    unfold updateSlow
    rw [sliceEq]
    dsimp only
    rw [slowLoop_encodeText window self front (encodeText window) self.needsMapping 0 start rfl
      (Nat.zero_le _)]
  have fast : (encodeText window).findIdx? isNewlineOrNonAscii = none →
      { self with
        generatedColumn := self.generatedColumn + Int32.ofNat (encodeText window).length
        lastGeneratedUpdate := UInt32.ofNat (front ++ encodeText window).length } =
      { self.scanText self.needsMapping window with
        lastGeneratedUpdate := UInt32.ofNat (front ++ encodeText window).length } := by
    intro pure
    rw [findIdx?_encodeText] at pure
    have allPlain : window.dropWhile isPlain = [] := by
      by_contra some
      rw [if_neg some] at pure
      cases pure
    have plain : ∀ c ∈ window, isPlain c = true := List.dropWhile_eq_nil_iff.mp allPlain
    have scanned := scanText_plain window [] plain self self.needsMapping
    rw [List.append_nil] at scanned
    rw [scanned, encodeText_plain_length window plain]
    rfl
  unfold updateGeneratedLineAndColumn
  rw [sliceEq]
  dsimp only
  by_cases short : (encodeText window).length < 16
  · rw [if_pos short]
    cases any : (encodeText window).any isNewlineOrNonAscii with
    | true => exact slow
    | false =>
        rw [Bool.not_false, if_pos rfl]
        apply fast
        rw [List.findIdx?_eq_none_iff]
        intro byte member
        simpa using List.any_eq_false.mp any byte member
  · rw [if_neg short, indexOfNewlineOrNonAscii_eq, List.drop_zero]
    cases found : (encodeText window).findIdx? isNewlineOrNonAscii with
    | some index => exact slow
    | none => exact fast found

end Builder

end Printer

end Bun.SourceMap
