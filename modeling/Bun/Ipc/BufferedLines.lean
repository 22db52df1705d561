/-
The messages that come out of a line buffer.

The bytes behind `head` are what is left of the stream behind the messages that were taken.  A
scan finds the end of the first line among them, or that no line ends there yet, or that the
first line is too long.
-/

import Bun.Ipc.JSONLineBuffer

set_option autoImplicit false

namespace Bun.Ipc

/-! ### Lines of a stream -/

/-- The lines that a newline ends, in front of the first one that is too long, as messages. -/
def allowed (maxLine : ℕ) (stream : List UInt8) : List (List UInt8) :=
  ((stream.splitOn newline).dropLast.takeWhile fun line => decide (line.length ≤ maxLine)).map
    (· ++ [newline])

def TooLongAt (maxLine : ℕ) (stream : List UInt8) (number : ℕ) : Prop :=
  ∃ line, (stream.splitOn newline)[number]? = some line ∧ maxLine < line.length

def Message (maxLine : ℕ) (message : List UInt8) : Prop :=
  ∃ text, message = text ++ [newline] ∧ newline ∉ text ∧ text.length ≤ maxLine

/-- The first line goes on for too long, whether or not it ends. -/
def BeginsTooLong (maxLine : ℕ) (rest : List UInt8) : Prop :=
  ∃ text later, rest = text ++ later ∧ newline ∉ text ∧ maxLine < text.length

section Lines

variable {maxLine : ℕ}

theorem splitOn_line {text : List UInt8} (noNewline : newline ∉ text) (rest : List UInt8) :
    (text ++ newline :: rest).splitOn newline = text :: rest.splitOn newline :=
  List.splitOn_append_cons_self_of_not_mem noNewline rest

theorem allowed_line {text : List UInt8} (noNewline : newline ∉ text)
    (fits : text.length ≤ maxLine) (rest : List UInt8) :
    allowed maxLine (text ++ newline :: rest) = (text ++ [newline]) :: allowed maxLine rest := by
  unfold allowed
  rw [splitOn_line noNewline, List.dropLast_cons_of_ne_nil (List.splitOn_ne_nil _ _),
    List.takeWhile_cons, if_pos (decide_eq_true fits), List.map_cons]

theorem allowed_unfinished {rest : List UInt8} (noNewline : newline ∉ rest) :
    allowed maxLine rest = [] := by
  unfold allowed
  rw [List.splitOn_eq_singleton noNewline]
  rfl

theorem BeginsTooLong.first {rest : List UInt8} (tooLong : BeginsTooLong maxLine rest) :
    ∃ line more, rest.splitOn newline = line :: more ∧ maxLine < line.length := by
  obtain ⟨text, later, rfl, noNewline, isLong⟩ := tooLong
  by_cases ends : newline ∈ later
  · obtain ⟨front, back, rfl, notFront⟩ := List.eq_append_cons_of_mem ends
    refine ⟨text ++ front, back.splitOn newline, ?_, ?_⟩
    · rw [← List.append_assoc]
      refine splitOn_line ?_ back
      rw [List.mem_append, not_or]
      exact ⟨noNewline, notFront⟩
    · rw [List.length_append]
      omega
  · refine ⟨text ++ later, [], List.splitOn_eq_singleton ?_, ?_⟩
    · rw [List.mem_append, not_or]
      exact ⟨noNewline, ends⟩
    · rw [List.length_append]
      omega

theorem BeginsTooLong.allowed_eq {rest : List UInt8} (tooLong : BeginsTooLong maxLine rest) :
    allowed maxLine rest = [] := by
  obtain ⟨line, more, isSplit, isLong⟩ := tooLong.first
  unfold allowed
  rw [isSplit]
  cases more with
  | nil => rfl
  | cons second more =>
      rw [List.dropLast_cons_of_ne_nil (List.cons_ne_nil _ _),
        List.takeWhile_cons_of_neg (by simp; omega), List.map_nil]

theorem BeginsTooLong.append {rest : List UInt8} (tooLong : BeginsTooLong maxLine rest)
    (bytes : List UInt8) : BeginsTooLong maxLine (rest ++ bytes) := by
  obtain ⟨text, later, rfl, noNewline, isLong⟩ := tooLong
  exact ⟨text, later ++ bytes, List.append_assoc .., noNewline, isLong⟩

/-- Messages are the first lines of the stream that they stand in front of. -/
theorem allowed_messages {taken : List (List UInt8)}
    (messages : ∀ message ∈ taken, Message maxLine message) (rest : List UInt8) :
    allowed maxLine (taken.flatten ++ rest) = taken ++ allowed maxLine rest := by
  induction taken with
  | nil => rfl
  | cons message taken ih =>
      obtain ⟨text, rfl, noNewline, fits⟩ := messages message List.mem_cons_self
      rw [List.flatten_cons, List.append_assoc, List.append_assoc, List.singleton_append,
        allowed_line noNewline fits, ih fun later member => messages later
          (List.mem_cons_of_mem _ member), List.cons_append]

theorem splitOn_messages {taken : List (List UInt8)}
    (messages : ∀ message ∈ taken, Message maxLine message) (rest : List UInt8) :
    ((taken.flatten ++ rest).splitOn newline)[taken.length]? =
      (rest.splitOn newline)[0]? := by
  induction taken with
  | nil => rfl
  | cons message taken ih =>
      obtain ⟨text, rfl, noNewline, fits⟩ := messages message List.mem_cons_self
      rw [List.flatten_cons, List.append_assoc, List.append_assoc, List.singleton_append,
        splitOn_line noNewline, List.length_cons, List.getElem?_cons_succ]
      exact ih fun later member => messages later (List.mem_cons_of_mem _ member)

end Lines

/-! ### Scans -/

theorem asU32_of_le {value : ℕ} (small : value ≤ u32Max) : asU32 value = value :=
  Nat.mod_eq_of_lt (Nat.lt_succ_of_le small)

namespace JSONLineBuffer

/-- What the fields say about the bytes behind `head`, which a scan has looked at. -/
def Positioned (buffer : JSONLineBuffer) (rest : List UInt8) : Prop :=
  match buffer.newlinePos with
  | some pos => ∃ text later, rest = text ++ newline :: later ∧ newline ∉ text ∧
      text.length = pos ∧ pos ≤ buffer.maxLine ∧ buffer.scannedPos = pos + 1
  | none => newline ∉ rest ∧ rest.length ≤ buffer.maxLine ∧ buffer.scannedPos = rest.length

/-- The bytes behind `head` are the rest of the stream. -/
structure Buffers (buffer : JSONLineBuffer) (rest : List UInt8) : Prop where
  live : buffer.tooLong = false
  inside : buffer.head ≤ buffer.data.length
  active : buffer.data.drop buffer.head = rest

structure Rejects (buffer : JSONLineBuffer) (rest : List UInt8) : Prop where
  tooLong : buffer.tooLong = true
  empty : buffer.data = []
  atStart : buffer.head = 0
  noNewline : buffer.newlinePos = none
  unscanned : buffer.scannedPos = 0
  freed : buffer.capacity = 0
  begins : BeginsTooLong buffer.maxLine rest

theorem Buffers.activeSlice_eq {buffer : JSONLineBuffer} {rest : List UInt8}
    (buffers : buffer.Buffers rest) : buffer.activeSlice = some rest := by
  unfold activeSlice
  rw [if_pos buffers.inside, buffers.active]

theorem Buffers.length_eq {buffer : JSONLineBuffer} {rest : List UInt8}
    (buffers : buffer.Buffers rest) : buffer.head + rest.length = buffer.data.length := by
  have inside := buffers.inside
  rw [← buffers.active, List.length_drop]
  omega

theorem scanForNewline_found {buffer : JSONLineBuffer} {text later : List UInt8}
    (buffers : buffer.Buffers (text ++ newline :: later)) (noPosition : buffer.newlinePos = none)
    (noNewline : newline ∉ text) (scannedLe : buffer.scannedPos ≤ text.length) :
    buffer.scanForNewline = some (buffer.scanned (some text.length) text.length) := by
  have unseen : ((text ++ newline :: later).drop buffer.scannedPos).findIdx? (· == newline) =
      some (text.length - buffer.scannedPos) := by
    rw [List.drop_append_of_le_length scannedLe, List.findIdx?_append]
    have notThere : (text.drop buffer.scannedPos).findIdx? (· == newline) = none := by
      rw [List.findIdx?_eq_none_iff]
      intro byte member
      rw [beq_eq_false_iff_ne]
      rintro rfl
      exact noNewline (List.mem_of_mem_drop member)
    rw [notThere, List.findIdx?_cons, if_pos (beq_self_eq_true newline), List.length_drop]
    simp
  have longer : ¬ buffer.scannedPos ≥ (text ++ newline :: later).length := by
    rw [List.length_append, List.length_cons]
    omega
  have together : buffer.scannedPos + (text.length - buffer.scannedPos) = text.length := by omega
  unfold scanForNewline
  rw [if_neg (by simp [buffers.live, noPosition]), buffers.activeSlice_eq]
  dsimp only
  rw [if_neg longer, unseen, Option.map_some, together, Option.getD_some]

theorem scanForNewline_missing {buffer : JSONLineBuffer} {rest : List UInt8}
    (buffers : buffer.Buffers rest) (noPosition : buffer.newlinePos = none)
    (noNewline : newline ∉ rest) (unscanned : buffer.scannedPos < rest.length) :
    buffer.scanForNewline = some (buffer.scanned none rest.length) := by
  have unseen : (rest.drop buffer.scannedPos).findIdx? (· == newline) = none := by
    rw [List.findIdx?_eq_none_iff]
    intro byte member
    rw [beq_eq_false_iff_ne]
    rintro rfl
    exact noNewline (List.mem_of_mem_drop member)
  unfold scanForNewline
  rw [if_neg (by simp [buffers.live, noPosition]), buffers.activeSlice_eq]
  dsimp only
  rw [if_neg (Nat.not_le.mpr unscanned), unseen, Option.map_none, Option.getD_none]

def CastsFit (buffer : JSONLineBuffer) : Prop :=
  ∀ value ∈ buffer.casts, value ≤ u32Max

structure ScannedTo (buffer after : JSONLineBuffer) (rest : List UInt8) : Prop where
  sameLimit : after.maxLine = buffer.maxLine
  casts : after.CastsFit
  outcome : after.Rejects rest ∨ after.Buffers rest ∧ after.Positioned rest ∧
    after.data = buffer.data ∧ after.head = buffer.head ∧ after.capacity = buffer.capacity

theorem scanned_tooLong {buffer : JSONLineBuffer} (limit : buffer.maxLine < u32Max)
    (castsFit : buffer.CastsFit) {rest : List UInt8} (found : Option ℕ) {lineLen : ℕ}
    (isLong : buffer.maxLine < lineLen) (begins : BeginsTooLong buffer.maxLine rest) :
    ScannedTo buffer (buffer.scanned found lineLen) rest := by
  have cap : min buffer.maxLine (u32Max - 1) = buffer.maxLine := by omega
  have sameLimit : asU32 (min buffer.maxLine (u32Max - 1)) = buffer.maxLine := by
    rw [cap, asU32_of_le (by omega)]
  unfold scanned
  rw [if_pos isLong]
  refine ⟨sameLimit, ?_, Or.inl ⟨rfl, rfl, rfl, rfl, rfl, rfl, ?_⟩⟩
  · intro value member
    rcases List.mem_append.mp member with isCap | isEarlier
    · rw [List.mem_singleton.mp isCap]
      omega
    · exact castsFit value isEarlier
  · rw [show ({ new buffer.maxLine with
        tooLong := true, casts := (new buffer.maxLine).casts ++ buffer.casts } :
        JSONLineBuffer).maxLine = buffer.maxLine from sameLimit]
    exact begins

theorem scanned_found {buffer : JSONLineBuffer} (limit : buffer.maxLine < u32Max) {pos : ℕ}
    (fits : pos ≤ buffer.maxLine) :
    buffer.scanned (some pos) pos =
      { buffer with
        newlinePos := some pos
        scannedPos := pos + 1
        casts := pos :: buffer.casts } := by
  have small : asU32 pos = pos := asU32_of_le (by omega)
  have smallNext : asU32 (pos + 1) = pos + 1 := asU32_of_le (by omega)
  unfold scanned
  rw [if_neg (Nat.not_lt.mpr fits)]
  dsimp only
  rw [small, smallNext]

theorem scanForNewline_line {buffer : JSONLineBuffer} {text later : List UInt8}
    (buffers : buffer.Buffers (text ++ newline :: later)) (limit : buffer.maxLine < u32Max)
    (noPosition : buffer.newlinePos = none) (noNewline : newline ∉ text)
    (scannedLe : buffer.scannedPos ≤ text.length) (fits : text.length ≤ buffer.maxLine) :
    buffer.scanForNewline = some
      { buffer with
        newlinePos := some text.length
        scannedPos := text.length + 1
        casts := text.length :: buffer.casts } := by
  rw [scanForNewline_found buffers noPosition noNewline scannedLe, scanned_found limit fits]

theorem scanForNewline_spec {buffer : JSONLineBuffer} {rest : List UInt8}
    (buffers : buffer.Buffers rest) (limit : buffer.maxLine < u32Max)
    (castsFit : buffer.CastsFit) (noPosition : buffer.newlinePos = none)
    (scannedLe : buffer.scannedPos ≤ rest.length) (scannedFits : buffer.scannedPos ≤ buffer.maxLine)
    (seen : newline ∉ rest.take buffer.scannedPos) :
    ∃ after, buffer.scanForNewline = some after ∧ ScannedTo buffer after rest := by
  by_cases ends : newline ∈ rest
  · obtain ⟨text, later, rfl, noNewline⟩ := List.eq_append_cons_of_mem ends
    have scannedText : buffer.scannedPos ≤ text.length := by
      refine Nat.le_of_not_lt ?_
      intro beyond
      apply seen
      rw [List.take_append, List.mem_append]
      right
      obtain ⟨more, isMore⟩ : ∃ more, buffer.scannedPos - text.length = more + 1 :=
        ⟨buffer.scannedPos - text.length - 1, by omega⟩
      rw [isMore, List.take_succ_cons]
      exact List.mem_cons_self
    refine ⟨_, scanForNewline_found buffers noPosition noNewline scannedText, ?_⟩
    by_cases isLong : text.length > buffer.maxLine
    · exact scanned_tooLong limit castsFit _ isLong ⟨text, newline :: later, rfl, noNewline, isLong⟩
    · rw [scanned_found limit (Nat.le_of_not_lt isLong)]
      refine ⟨rfl, ?_, Or.inr ⟨⟨buffers.live, buffers.inside, buffers.active⟩,
        ⟨text, later, rfl, noNewline, rfl, Nat.le_of_not_lt isLong, rfl⟩, rfl, rfl, rfl⟩⟩
      intro value member
      rcases List.mem_cons.mp member with rfl | isEarlier
      · omega
      · exact castsFit value isEarlier
  · by_cases unscanned : buffer.scannedPos < rest.length
    · refine ⟨_, scanForNewline_missing buffers noPosition ends unscanned, ?_⟩
      by_cases isLong : rest.length > buffer.maxLine
      · exact scanned_tooLong limit castsFit _ isLong
          ⟨rest, [], (List.append_nil rest).symm, ends, isLong⟩
      · have small : asU32 rest.length = rest.length := asU32_of_le (by omega)
        unfold scanned
        rw [if_neg isLong, small]
        refine ⟨rfl, ?_, Or.inr ⟨⟨buffers.live, buffers.inside, buffers.active⟩, ?_, rfl, rfl, rfl⟩⟩
        · intro value member
          rcases List.mem_cons.mp member with rfl | isEarlier
          · omega
          · exact castsFit value isEarlier
        · unfold Positioned
          dsimp only
          rw [noPosition]
          exact ⟨ends, Nat.le_of_not_lt isLong, rfl⟩
    · refine ⟨buffer, ?_, rfl, castsFit, Or.inr ⟨buffers, ?_, rfl, rfl, rfl⟩⟩
      · unfold scanForNewline
        rw [if_neg (by simp [buffers.live, noPosition]), buffers.activeSlice_eq]
        dsimp only
        rw [if_pos (Nat.le_of_not_lt unscanned)]
      · unfold Positioned
        rw [noPosition]
        exact ⟨ends, by omega, by omega⟩

end JSONLineBuffer

end Bun.Ipc
