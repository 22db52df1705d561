/-
A scan that goes on where it stopped.

Each element is passed over in the same way when there are more bytes behind it, so a scan that
asked for more bytes may go on from the place that it kept.  It also keeps how far it looked for
the end of a line; no line ends before that.  However the bytes of a reply come in, the scan
ends as one scan of all of them does.
-/

import Bun.Valkey.ReplyScanner

set_option autoImplicit false

namespace Bun.Valkey

open Bun.Foundation

/-! ### One round of the scan -/

abbrev ReplyScanner.reader (scanner : ReplyScanner) (buffer : List UInt8) : ValkeyReader :=
  { buffer := buffer, pos := scanner.pos, crlfSkip := scanner.crlfSkip }

section

variable (scanner : ReplyScanner) {buffer : List UInt8} {reader : ValkeyReader}
  {children : Option ℕ} {err : RedisError}

theorem scan_short
    (isScan : scanOne scanner.stack.length (scanner.reader buffer) =
      (.error .invalidResponse, reader)) :
    scan scanner buffer = (.ok .needMoreData, { scanner with
      crlfSkip := if reader.pos = scanner.pos + 1 then buffer.length - reader.pos - 1 else 0 }) := by
  rw [scan.eq_def]
  grind

theorem scan_error
    (isScan : scanOne scanner.stack.length (scanner.reader buffer) = (.error err, reader))
    (notShort : err ≠ .invalidResponse) : scan scanner buffer = (.error err, scanner) := by
  rw [scan.eq_def]
  grind

theorem scan_complete
    (isScan : scanOne scanner.stack.length (scanner.reader buffer) = (.ok children, reader))
    (isOver : afterElement children scanner.stack = []) :
    scan scanner buffer = (.ok .complete, { pos := reader.pos, stack := [], crlfSkip := 0 }) := by
  rw [scan.eq_def]
  grind

theorem scan_next
    (isScan : scanOne scanner.stack.length (scanner.reader buffer) = (.ok children, reader))
    (notOver : afterElement children scanner.stack ≠ []) :
    scan scanner buffer =
      scan { pos := reader.pos, stack := afterElement children scanner.stack, crlfSkip := 0 }
        buffer := by
  rw [scan.eq_def]
  grind

end

/-! ### How far the end of a line was looked for -/

/-- What a scan says and where it leaves the scanner.  After an error it is not used again. -/
def outcome (result : Except RedisError ScanResult × ReplyScanner) :
    Except RedisError (ScanResult × ReplyScanner) :=
  result.1.map fun said => (said, result.2)

theorem scan_of_outcome {result : Except RedisError ScanResult × ReplyScanner} {said : ScanResult}
    {scanner : ReplyScanner} (isOutcome : outcome result = outcome (.ok said, scanner)) :
    result = (.ok said, scanner) := by
  obtain ⟨answer, last⟩ := result
  cases answer with
  | error err => cases isOutcome
  | ok answer =>
      cases isOutcome
      rfl

/-- No line ends where the scanner is not going to look. -/
structure Clean (scanner : ReplyScanner) (buffer : List UInt8) : Prop where
  noCrlf : NoCrlfBelow (buffer.drop (scanner.pos + 1)) scanner.crlfSkip
  inside : scanner.crlfSkip ≤ (buffer.drop (scanner.pos + 1)).length - 1

theorem clean_of_zero {scanner : ReplyScanner} (zero : scanner.crlfSkip = 0)
    (buffer : List UInt8) : Clean scanner buffer where
  noCrlf := by
    intro i isBelow
    rw [zero] at isBelow
    exact absurd isBelow (Nat.not_lt_zero i)
  inside := by
    rw [zero]
    exact Nat.zero_le _

theorem Clean.append {scanner : ReplyScanner} {buffer : List UInt8} (clean : Clean scanner buffer)
    (more : List UInt8) : Clean scanner (buffer ++ more) := by
  by_cases zero : scanner.crlfSkip = 0
  · exact clean_of_zero zero _
  · have isInside := clean.inside
    have long : scanner.pos + 1 ≤ buffer.length := by
      rw [List.length_drop] at isInside
      omega
    have isDrop : (buffer ++ more).drop (scanner.pos + 1) =
        buffer.drop (scanner.pos + 1) ++ more :=
      List.drop_append_of_le_length long
    constructor
    · intro i isBelow
      rw [isDrop, isCrlfAt_append (by omega)]
      exact clean.noCrlf i isBelow
    · rw [isDrop, List.length_append]
      omega

theorem readUntilCrlf_clean (reader : ValkeyReader)
    (none : NoCrlfBelow (reader.buffer.drop reader.pos) reader.crlfSkip) :
    readUntilCrlf reader = readUntilCrlf { reader with crlfSkip := 0 } := by
  unfold readUntilCrlf
  dsimp only
  rw [findCrlf_skip none, Nat.zero_min]

theorem readUntilCrlf_short {reader reader' : ValkeyReader}
    (none : NoCrlfBelow (reader.buffer.drop reader.pos) reader.crlfSkip)
    (isRead : readUntilCrlf reader = (.error .invalidResponse, reader')) (bound : ℕ) :
    NoCrlfBelow (reader.buffer.drop reader.pos) bound := by
  obtain ⟨i, -, isOther⟩ | ⟨found, isOther⟩ := readUntilCrlf_cases reader
  · cases isOther.symm.trans isRead
  · rw [findCrlf_skip none, findCrlf_none] at found
    intro i _
    by_cases isCrlf : isCrlfAt (reader.buffer.drop reader.pos) i = true
    · have isInside := isCrlfAt_inside isCrlf
      by_cases long : (reader.buffer.drop reader.pos).length > maxLineLen + 1
      · rw [if_pos long] at isOther
        cases isOther.symm.trans isRead
      · exact found i (Nat.zero_le i) (by omega)
    · exact Bool.eq_false_iff.mpr isCrlf

theorem readUntilCrlf_ok_pos {reader reader' : ValkeyReader} {str : List UInt8}
    (isRead : readUntilCrlf reader = (.ok str, reader')) : reader.pos + 2 ≤ reader'.pos := by
  obtain ⟨i, -, isOther⟩ | ⟨-, isOther⟩ := readUntilCrlf_cases reader
  · cases isOther.symm.trans isRead
    exact Nat.add_le_add_right (Nat.le_add_right reader.pos i) 2
  · cases isOther.symm.trans isRead

/-- The scan of an element does not depend on where it starts to look for a line end. -/
theorem scanOne_clean {buffer : List UInt8} {pos skip : ℕ}
    (none : NoCrlfBelow (buffer.drop (pos + 1)) skip) (depth : ℕ) :
    (scanOne depth ⟨buffer, pos, skip⟩).1 = (scanOne depth ⟨buffer, pos, 0⟩).1 ∧
      (scanOne depth ⟨buffer, pos, skip⟩).2.pos = (scanOne depth ⟨buffer, pos, 0⟩).2.pos := by
  unfold scanOne
  cases isByte : buffer[pos]? with
  | none =>
      have short : ∀ skip, readByte ⟨buffer, pos, skip⟩ =
          (.error .invalidResponse, ⟨buffer, pos, skip⟩) := fun skip => readByte_none isByte
      rw [Read.bind_error (short skip), Read.bind_error (short 0)]
      exact ⟨rfl, rfl⟩
  | some byte =>
      have isRead : ∀ skip, readByte ⟨buffer, pos, skip⟩ =
          (.ok byte, ⟨buffer, pos + 1, skip⟩) := fun skip => readByte_some isByte
      rw [Read.bind_ok (isRead skip), Read.bind_ok (isRead 0)]
      cases scanBody_cases depth byte with
      | inl fails =>
          obtain ⟨error, -, isFail⟩ := fails
          rw [isFail]
          exact ⟨rfl, rfl⟩
      | inr starts =>
          obtain ⟨next, -, isLine⟩ := starts
          have same := readUntilCrlf_clean ⟨buffer, pos + 1, skip⟩ none
          rw [isLine, Read.bind_congr next same]
          exact ⟨rfl, rfl⟩

theorem scan_clean {scanner : ReplyScanner} {buffer : List UInt8} (clean : Clean scanner buffer) :
    outcome (scan scanner buffer) = outcome (scan { scanner with crlfSkip := 0 } buffer) := by
  have same := scanOne_clean clean.noCrlf scanner.stack.length
  cases isScan : scanOne scanner.stack.length (scanner.reader buffer) with
  | mk result reader =>
      cases isScan' : scanOne scanner.stack.length ⟨buffer, scanner.pos, 0⟩ with
      | mk result' reader' =>
          rw [isScan, isScan'] at same
          obtain ⟨rfl, samePos⟩ := same
          change reader.pos = reader'.pos at samePos
          cases result with
          | error err =>
              by_cases isShort : err = .invalidResponse
              · subst isShort
                rw [scan_short scanner isScan, scan_short { scanner with crlfSkip := 0 } isScan',
                  samePos]
              · rw [scan_error scanner isScan isShort,
                  scan_error { scanner with crlfSkip := 0 } isScan' isShort]
                rfl
          | ok children =>
              by_cases isOver : afterElement children scanner.stack = []
              · rw [scan_complete scanner isScan isOver,
                  scan_complete { scanner with crlfSkip := 0 } isScan' isOver, samePos]
              · rw [scan_next scanner isScan isOver,
                  scan_next { scanner with crlfSkip := 0 } isScan' isOver, samePos]

/-- The scanner keeps how far it looked only when there is no line end up to there. -/
theorem clean_of_short {scanner : ReplyScanner} {buffer : List UInt8} {reader : ValkeyReader}
    (clean : Clean scanner buffer)
    (isScan : scanOne scanner.stack.length (scanner.reader buffer) =
      (.error .invalidResponse, reader)) :
    Clean { scanner with
      crlfSkip := if reader.pos = scanner.pos + 1 then buffer.length - reader.pos - 1 else 0 }
      buffer := by
  by_cases atLine : reader.pos = scanner.pos + 1
  · rw [if_pos atLine, atLine]
    constructor
    · obtain ⟨byte, between, isByte, isBody⟩ | ⟨error, reader', isByte, isBoth⟩ :=
        Read.bind_cases readByte (scanBody scanner.stack.length) (scanner.reader buffer)
      · obtain ⟨-, rfl⟩ := readByte_ok isByte
        have isShort := isBody.symm.trans isScan
        obtain ⟨error, notShort, isFail⟩ | ⟨next, isTame, isLine⟩ :=
          scanBody_cases scanner.stack.length byte
        · rw [isFail] at isShort
          exact absurd (Except.error.inj (Prod.mk.inj isShort).1) notShort
        · rw [isLine] at isShort
          obtain ⟨str, between, isRead, isRest⟩ | ⟨error, reader', isRead, isBoth⟩ :=
            Read.bind_cases readUntilCrlf next { scanner.reader buffer with pos := scanner.pos + 1 }
          · -- Behind the end of a line the reader is too far on.
            have passed : scanner.pos + 1 + 2 ≤ between.pos := readUntilCrlf_ok_pos isRead
            have forward := ((isTame str).ahead (isRest.symm.trans isShort)).forward
            omega
          · cases isBoth.symm.trans isShort
            have noLine := readUntilCrlf_short clean.noCrlf isRead
            exact noLine _
      · -- Without the byte of the type the reader did not move.
        have same := isBoth.symm.trans isScan
        cases isAt : buffer[scanner.pos]? with
        | none =>
            cases (readByte_none isAt).symm.trans isByte
            rw [← (Prod.mk.inj same).2] at atLine
            exact absurd atLine (Nat.ne_of_lt (Nat.lt_succ_self scanner.pos))
        | some byte => cases (readByte_some isAt).symm.trans isByte
    · rw [List.length_drop]
  · rw [if_neg atLine]
    exact clean_of_zero rfl buffer

/-! ### More bytes -/

/-- A scan that asked for more bytes goes on with them as a scan from the start does. -/
theorem scan_resume {scanner scanner' : ReplyScanner} {buffer : List UInt8}
    (clean : Clean scanner buffer)
    (isScan : scan scanner buffer = (.ok .needMoreData, scanner')) :
    Clean scanner' buffer ∧ ∀ more,
      outcome (scan scanner' (buffer ++ more)) = outcome (scan scanner (buffer ++ more)) := by
  fun_induction scan scanner buffer with
  | case1 scanner reader _ isOne =>
      cases isScan
      have isClean := clean_of_short clean isOne
      refine ⟨isClean, fun more => ?_⟩
      exact (scan_clean (isClean.append more)).trans (scan_clean (clean.append more)).symm
  | case2 => cases isScan
  | case3 => cases isScan
  | case4 scanner children reader isOne _ notOver ih =>
      have later := ih (clean_of_zero rfl buffer) isScan
      refine ⟨later.1, fun more => ?_⟩
      rw [later.2 more, scan_next scanner ((scanOne_tame _).ok isOne more) notOver]
      rfl

/-- A scan that did not ask for more bytes says the same when there are more. -/
theorem scan_append {scanner scanner' : ReplyScanner} {buffer : List UInt8}
    {said : Except RedisError ScanResult} (isScan : scan scanner buffer = (said, scanner'))
    (noMore : said ≠ .ok .needMoreData) (more : List UInt8) :
    scan scanner (buffer ++ more) = (said, scanner') := by
  fun_induction scan scanner buffer with
  | case1 => exact absurd (Prod.mk.inj isScan).1.symm noMore
  | case2 scanner err reader isOne notShort =>
      rw [← isScan]
      exact scan_error scanner ((scanOne_tame _).error isOne notShort more) notShort
  | case3 scanner children reader isOne _ isOver =>
      rw [← isScan]
      have grown := scan_complete scanner ((scanOne_tame _).ok isOne more) isOver
      exact grown
  | case4 scanner children reader isOne _ notOver ih =>
      rw [scan_next scanner ((scanOne_tame _).ok isOne more) notOver]
      exact ih isScan

/-- The scans of a buffer that grows by one chunk after the other, up to the first one that does
not ask for more. -/
def scanChunks : ReplyScanner → List UInt8 → List (List UInt8) →
    Except RedisError ScanResult × ReplyScanner
  | scanner, _, [] => (.ok .needMoreData, scanner)
  | scanner, buffer, chunk :: chunks =>
      match scan scanner (buffer ++ chunk) with
      | (.ok .needMoreData, scanner') => scanChunks scanner' (buffer ++ chunk) chunks
      | (said, scanner') => (said, scanner')

theorem scanChunks_more {scanner scanner' : ReplyScanner} {buffer chunk : List UInt8}
    (isScan : scan scanner (buffer ++ chunk) = (.ok .needMoreData, scanner'))
    (chunks : List (List UInt8)) :
    scanChunks scanner buffer (chunk :: chunks) = scanChunks scanner' (buffer ++ chunk) chunks := by
  rw [scanChunks, isScan]

theorem scanChunks_done {scanner scanner' : ReplyScanner} {buffer chunk : List UInt8}
    {said : Except RedisError ScanResult} (isScan : scan scanner (buffer ++ chunk) = (said, scanner'))
    (noMore : said ≠ .ok .needMoreData) (chunks : List (List UInt8)) :
    scanChunks scanner buffer (chunk :: chunks) = (said, scanner') := by
  rw [scanChunks, isScan]
  cases said with
  | error err => rfl
  | ok said =>
      cases said with
      | complete => rfl
      | needMoreData => exact absurd rfl noMore

theorem scanChunks_from {scanner : ReplyScanner} {buffer : List UInt8}
    (clean : Clean scanner buffer)
    (isLast : outcome (scan {} buffer) = .ok (.needMoreData, scanner))
    (goesOn : ∀ more,
      outcome (scan scanner (buffer ++ more)) = outcome (scan {} (buffer ++ more)))
    (chunks : List (List UInt8)) :
    outcome (scanChunks scanner buffer chunks) = outcome (scan {} (buffer ++ chunks.flatten)) := by
  induction chunks generalizing scanner buffer with
  | nil =>
      rw [List.flatten_nil, List.append_nil, isLast]
      rfl
  | cons chunk chunks ih =>
      rw [List.flatten_cons, ← List.append_assoc]
      cases isScan : scan scanner (buffer ++ chunk) with
      | mk said scanner' =>
          by_cases more : said = .ok .needMoreData
          · subst more
            rw [scanChunks_more isScan]
            have resumed := scan_resume (clean.append chunk) isScan
            apply ih resumed.1
            · rw [← goesOn chunk, isScan]
              rfl
            · intro rest
              rw [resumed.2 rest, List.append_assoc]
              exact goesOn (chunk ++ rest)
          · rw [scanChunks_done isScan more, List.append_assoc, ← goesOn, ← List.append_assoc,
              scan_append isScan more]

theorem scan_nil : scan {} [] = (.ok .needMoreData, {}) :=
  scan_short {} (rfl : scanOne 0 ⟨[], 0, 0⟩ = (.error .invalidResponse, ⟨[], 0, 0⟩))

/-- However the bytes come in, the scans of them end as one scan of all of them does: with the
same error, with a reply that ends at the same place, or asking for more in the same state. -/
theorem scanChunks_eq_scan (chunks : List (List UInt8)) :
    outcome (scanChunks {} [] chunks) = outcome (scan {} chunks.flatten) := by
  apply scanChunks_from (clean_of_zero rfl [])
  · rw [scan_nil]
    rfl
  · intro more
    rfl

end Bun.Valkey
