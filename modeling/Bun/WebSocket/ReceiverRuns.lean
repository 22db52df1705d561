/-
The frame header against the decoder, the frame loop, and the reads of a connection:
however the received stream is cut, the events are those of the decoder of the whole
stream.
-/

import Bun.WebSocket.ReceiverSteps

set_option autoImplicit false

namespace Bun.WebSocket

open Bun.Foundation

variable {Inflater : Type} {codecs : Codecs Inflater} {options : ConnectedOptions}
variable {ws : Connection Inflater} {cursor : RecvCursor} {decoder : Decoder Inflater}

/-! ### The end of a header -/

theorem recvPayloadLength_advances (codecs : Codecs Inflater) {base : Connection Inflater}
    {start : RecvCursor} {before : List UInt8 → List Event} (live : Live ws decoder)
    {head : FrameHead} (clean : Clean ws) (role : head.masked = options.isServer)
    (atLength : AtLength ws cursor decoder head) (sameLog : ws.dispatched = base.dispatched)
    (lighter : 4 * cursor.data.length + 3 < start.weight)
    (same : ∀ more, before more =
      decoder.proceed codecs options
        (match decoder.lengthViolation options head cursor.bodyRemain with
        | some failure => .violation failure
        | none => Decoder.readKey head cursor.bodyRemain (cursor.data ++ more))) :
    Advances codecs options base start before (ws.recvPayloadLength codecs options cursor) := by
  unfold Connection.recvPayloadLength
  rcases validatePayloadLength_cases codecs live clean role atLength with
    ⟨failure, violated, validatedEq⟩ |
      ⟨valid, after, state, position, validatedEq, tracks, log, rankLe, notHeader, events⟩
  · rw [validatedEq]
    refine advances_failed live.attached sameLog ?_
    intro more
    rw [same, violated]
    rfl
  · rw [validatedEq]
    dsimp only
    rw [valid] at same
    have eventsEq : ∀ more,
        before more = position.events codecs options decoder (cursor.data ++ more) := by
      intro more
      rw [same, events]
    by_cases empty : cursor.bodyRemain = 0 ∧ state = .needBody ∧ cursor.isFinal = true
    · rw [if_pos empty]
      obtain ⟨noBody, rfl, isFinal⟩ := empty
      -- Of the positions only the body of an unmasked data frame is read in this state.
      have holds := tracks.holds
      cases holds with
      | boundary fragment isFragment lengthBytes control stateEq pending => cases stateEq
      | length head' got fragment control role' gotLength gotBytes short stateEq inMessage =>
          dsimp only at stateEq
          split at stateEq <;> cases stateEq
      | key head' length got clean' role' masked stateEq remain gotLength gotBytes short inFrame =>
          cases stateEq
      | maskedBody head' length key got clean' stateEq remain rotated inMessage => cases stateEq
      | control head' length key got fragment lengthBytes stateEq role' hasKey held inControl =>
          dsimp only [controlState] at stateEq
          split at stateEq <;> cases stateEq
      | body head' length got clean' role' stateEq remain inMessage =>
          have consumed := Connection.consume_delivered after tracks.live.attached codecs options []
            cursor.lastDataType
            (inMessage.kind ▸ inMessage.isMessage) decoder tracks.live.deflate
          rw [List.append_nil, inMessage.buffer, inMessage.compressed] at consumed
          have kindEq : cursor.lastDataType = (decoder.growing head').opcode := inMessage.kind
          rw [kindEq] at consumed
          rw [kindEq]
          refine advances_message after got tracks.live.attached
            tracks.live.isOpen clean' inMessage (inMessage.cursorFinal ▸ isFinal)
            (log.trans sameLog) ?_ rfl rfl ?_ ?_
          · exact consumed.2.reset _ _ false false (Or.inr rfl)
          · dsimp only
            omega
          · intro more
            rw [eventsEq, Position.events]
            have whole := readPayload_whole head' length none got cursor.data more 0
              (by dsimp only at remain; omega) (Nat.zero_le _)
            rw [List.take_zero, List.append_nil, List.drop_zero] at whole
            exact congrArg (Decoder.proceed codecs options decoder) whole
    · rw [if_neg empty]
      refine .moves [] decoder position rfl ?_ tracks (fun isHeader => absurd isHeader notHeader) ?_
        eventsEq
      · rw [List.append_nil]
        exact log.trans sameLog
      · have weightEq : RecvCursor.weight { cursor with state := state } =
            4 * cursor.data.length + state.rank := rfl
        rw [weightEq]
        omega

theorem recvPayloadLength_extended (codecs : Codecs Inflater) {base : Connection Inflater}
    {start : RecvCursor} {before : List UInt8 → List Event} (live : Live ws decoder)
    {head : FrameHead} (clean : Clean ws) (role : head.masked = options.isServer)
    (extended : 0 < head.lengthBytes)
    (state : cursor.state =
      if head.lengthBytes = 2 then .extendedPayloadLength16 else .extendedPayloadLength64)
    (inMessage : InMessage ws cursor decoder head [])
    (sameLog : ws.dispatched = base.dispatched)
    (lighter : 4 * cursor.data.length + 3 < start.weight)
    (same : ∀ more, before more =
      decoder.proceed codecs options (decoder.readLength options head (cursor.data ++ more))) :
    Advances codecs options base start before (ws.recvPayloadLength codecs options cursor) := by
  have isExtended : cursor.state = .extendedPayloadLength16 ∨
      cursor.state = .extendedPayloadLength64 := by
    rw [state]
    split
    · exact Or.inl rfl
    · exact Or.inr rfl
  have receivedEq : ws.recvPayloadLength codecs options cursor =
      { step := .goOn, connection := ws, cursor := cursor } := by
    have notBody : cursor.state ≠ .needBody := by
      rcases isExtended with isShort | isLong
      · rw [isShort]
        decide
      · rw [isLong]
        decide
    have validatedEq : ws.validatePayloadLength options cursor =
        { step := .goOn, connection := ws, cursor := cursor } := by
      unfold Connection.validatePayloadLength Connection.payloadLengthFailure
      rcases isExtended with isShort | isLong
      · rw [isShort]
        cases options.isServer
        · rfl
        · simp only [if_true, Connection.expectMaskKey]
          rw [← isShort]
      · rw [isLong]
        cases options.isServer
        · rfl
        · simp only [if_true, Connection.expectMaskKey]
          rw [← isLong]
    unfold Connection.recvPayloadLength
    rw [validatedEq]
    dsimp only
    rw [if_neg (fun empty => notBody empty.2.1)]
  rw [receivedEq]
  refine .moves [] decoder (.length head []) rfl ?_ ⟨live, ?_⟩ ?_ ?_ same
  · rw [List.append_nil]
    exact sameLog
  · exact .length head [] clean.fragment clean.control role clean.lengthBytes rfl extended state
      inMessage
  · intro isHeader
    rcases isExtended with isShort | isLong
    · exact absurd (isShort.symm.trans isHeader) (by decide)
    · exact absurd (isLong.symm.trans isHeader) (by decide)
  · have rankLe := cursor.state.rank_le
    change 4 * cursor.data.length + cursor.state.rank < _
    omega

/-! ### The rules of a header -/

def FrameHead.parsed (head : FrameHead) (next : ReceiveState) : ParsedHeader :=
  { opcode := head.opcode
    payloadLen := head.shortLength
    isFragmented := head.opcode == .continuation || !head.fin
    isFinal := head.fin
    compressed := head.rsv1
    next := next }

theorem parseWebsocketHeader_eq (first second : UInt8) (isServer : Bool) :
    parseWebsocketHeader first second isServer =
      if (FrameHead.ofBytes first second).rsv23 ≠ 0 then .error .unexpectedRsv2Or3
      else if (FrameHead.ofBytes first second).masked ≠ isServer then
        .error (if isServer then .expectedMask else .unexpectedMaskFromServer)
      else
        match stateAfterHeader (FrameHead.ofBytes first second).opcode
            (FrameHead.ofBytes first second).shortLength with
        | none => .error .unsupportedControlFrame
        | some next => .ok ((FrameHead.ofBytes first second).parsed next) := by
  unfold parseWebsocketHeader
  simp only [WebsocketHeader.rsv_fromSlice, WebsocketHeader.mask_fromSlice,
    WebsocketHeader.opcode_fromSlice, WebsocketHeader.len_fromSlice,
    WebsocketHeader.final_fromSlice, WebsocketHeader.compressed_fromSlice]
  rfl

def FrameHead.dataState (head : FrameHead) : ReceiveState :=
  if head.lengthBytes = 0 then .needBody
  else if head.lengthBytes = 2 then .extendedPayloadLength16
  else .extendedPayloadLength64

theorem stateAfterHeader_eq {head : FrameHead} (short : head.shortLength < 128) :
    stateAfterHeader head.opcode head.shortLength =
      if head.isData then some head.dataState
      else if head.isControl then some (controlState head.opcode)
      else none := by
  have dataCase (isData : head.isData = true) :
      (if head.shortLength ≤ 125 then some ReceiveState.needBody
        else if head.shortLength = 126 then some .extendedPayloadLength16
        else some .extendedPayloadLength64) = some head.dataState := by
    have width : head.lengthBytes =
        if head.shortLength = 126 then 2 else if head.shortLength = 127 then 8 else 0 := by
      rw [FrameHead.lengthBytes, if_pos isData]
    unfold FrameHead.dataState
    by_cases inHeader : head.shortLength ≤ 125
    · rw [if_neg (by omega), if_neg (by omega)] at width
      rw [if_pos inHeader, width]
      rfl
    · rw [if_neg inHeader]
      by_cases isShort : head.shortLength = 126
      · rw [if_pos isShort] at width
        rw [if_pos isShort, width]
        rfl
      · rw [if_neg isShort, if_pos (by omega)] at width
        rw [if_neg isShort, width]
        rfl
  cases opcodeEq : head.opcode with
  | text | binary | continuation =>
      have isData : head.isData = true := by
        simp [FrameHead.isData, FrameHead.startsMessage, opcodeEq]
      rw [if_pos isData]
      exact dataCase isData
  | close | ping | pong | res3 | res4 | res5 | res6 | res7 | resB | resC | resD | resE | resF =>
      simp [stateAfterHeader, FrameHead.isData, FrameHead.startsMessage, FrameHead.isControl,
        controlState, opcodeEq]

theorem receivingIsFinal_eq (pending : KeepsPending ws cursor decoder) :
    ws.receivingIsFinal = decoder.pending.isNone := by
  unfold KeepsPending at pending
  cases pendingEq : decoder.pending with
  | none =>
      rw [pendingEq] at pending
      exact pending.1
  | some message =>
      rw [pendingEq] at pending
      exact pending.1

theorem fragmentationFailure_eq (pending : KeepsPending ws cursor decoder) {head : FrameHead}
    (known : head.isData = true ∨ head.isControl = true) (next : ReceiveState) :
    ws.fragmentationFailure (head.parsed next) =
      if head.startsMessage && decoder.pending.isSome ||
          head.opcode == .continuation && decoder.pending.isNone then
        some { code := .unexpectedOpcode, value := some head.opcode.toNat }
      else if head.isControl && !head.fin then some { code := .controlFrameIsFragmented }
      else none := by
  unfold Connection.fragmentationFailure FrameHead.parsed
  rw [receivingIsFinal_eq pending]
  unfold FrameHead.isData FrameHead.isControl FrameHead.startsMessage at known
  unfold FrameHead.isControl FrameHead.startsMessage
  cases opcodeEq : head.opcode with
  | text | binary | continuation =>
      cases decoder.pending <;> simp
  | close | ping | pong =>
      cases decoder.pending <;> simp [Opcode.isControl, Opcode.toNat]
  | res3 | res4 | res5 | res6 | res7 | resB | resC | resD | resE | resF =>
      simp [opcodeEq] at known

theorem headViolation_eq (decoder : Decoder Inflater) {head : FrameHead} (noReserved : head.rsv23 = 0)
    (role : head.masked = options.isServer)
    (known : head.isData = true ∨ head.isControl = true) :
    decoder.headViolation options head =
      if head.startsMessage && decoder.pending.isSome ||
          head.opcode == .continuation && decoder.pending.isNone then
        some { code := .unexpectedOpcode, value := some head.opcode.toNat }
      else if head.isControl && !head.fin then some { code := .controlFrameIsFragmented }
      else if head.rsv1 && !(head.startsMessage && decoder.deflate.isSome) then
        some { code := .unexpectedRsv1 }
      else none := by
  have isKnown : (!head.isData && !head.isControl) = false := by
    rcases known with isData | isControl
    · rw [isData]
      rfl
    · rw [isControl, Bool.and_comm]
      rfl
  unfold Decoder.headViolation
  rw [if_neg (by simp [noReserved]), if_neg (by simp [role]), if_neg (by simp [isKnown])]

def acceptedCursor (cursor : RecvCursor) (header : ParsedHeader) : RecvCursor :=
  let cursor :=
    { cursor with
      state := header.next, bodyRemain := header.payloadLen, isFinal := header.isFinal }
  if header.opcode == .text || header.opcode == .binary then
    { cursor with lastDataType := header.opcode }
  else cursor

def accepted (ws : Connection Inflater) (header : ParsedHeader) : Connection Inflater :=
  (ws.recordFragment header).recordCompression header

theorem accepted_live (live : Live ws decoder) (header : ParsedHeader) :
    Live (accepted ws header) decoder := by
  unfold accepted Connection.recordCompression Connection.recordFragment
  cases header.opcode <;> exact ⟨live.attached, live.isOpen, live.deflate⟩

theorem accepted_clean (clean : Clean ws) (header : ParsedHeader) :
    Clean (accepted ws header) := by
  unfold accepted Connection.recordCompression Connection.recordFragment
  cases header.opcode <;> exact ⟨clean.fragment, clean.lengthBytes, clean.control⟩

theorem accepted_dispatched (ws : Connection Inflater) (header : ParsedHeader) :
    (accepted ws header).dispatched = ws.dispatched := by
  unfold accepted Connection.recordCompression Connection.recordFragment
  cases header.opcode <;> rfl

theorem acceptedCursor_fields (cursor : RecvCursor) (header : ParsedHeader) :
    (acceptedCursor cursor header).data = cursor.data ∧
      (acceptedCursor cursor header).state = header.next ∧
      (acceptedCursor cursor header).bodyRemain = header.payloadLen := by
  unfold acceptedCursor
  dsimp only
  split <;> exact ⟨rfl, rfl, rfl⟩

theorem keepsPending_accepted (pending : KeepsPending ws cursor decoder) {head : FrameHead}
    (isControl : head.isControl = true) (next : ReceiveState) :
    KeepsPending (accepted ws (head.parsed next)) (acceptedCursor cursor (head.parsed next))
      decoder := by
  unfold accepted Connection.recordCompression Connection.recordFragment acceptedCursor
    FrameHead.parsed
  rcases opcode_of_isControl isControl with opcode | opcode | opcode <;> rw [opcode] <;>
    exact pending

theorem inMessage_accepted (pending : KeepsPending ws cursor decoder) {head : FrameHead}
    (isData : head.isData = true)
    (inSequence : ¬(head.startsMessage && decoder.pending.isSome ||
      head.opcode == .continuation && decoder.pending.isNone) = true)
    (next : ReceiveState) :
    InMessage (accepted ws (head.parsed next)) (acceptedCursor cursor (head.parsed next)) decoder
      head [] := by
  have known : head.opcode = .text ∨ head.opcode = .binary ∨ head.opcode = .continuation := by
    simpa [FrameHead.isData, FrameHead.startsMessage, or_assoc] using isData
  unfold KeepsPending at pending
  unfold accepted Connection.recordCompression Connection.recordFragment acceptedCursor
    FrameHead.parsed
  cases pendingEq : decoder.pending with
  | none =>
      rw [pendingEq] at pending
      have growingEq : decoder.growing head =
          { opcode := head.opcode, compressed := head.rsv1, payload := [] } := by
        rw [Decoder.growing, pendingEq]
      have starts : head.opcode = .text ∨ head.opcode = .binary := by
        rcases known with isText | isBinary | isContinuation
        · exact Or.inl isText
        · exact Or.inr isBinary
        · exact absurd (by rw [isContinuation, pendingEq]; simp) inSequence
      rcases starts with opcode | opcode <;> simp only [opcode] <;>
        exact
          { isData := isData
            isMessage := by rw [growingEq]; simp [Connection.IsMessageKind, opcode]
            final := rfl
            cursorFinal := rfl
            buffer := by rw [growingEq]; exact pending.2
            kind := by rw [growingEq]; exact opcode.symm
            compressed := by rw [growingEq]
            messageCompressed := by rw [growingEq] }
  | some message =>
      rw [pendingEq] at pending
      obtain ⟨-, buffer, kind, compressed, isMessage⟩ := pending
      have growingEq : decoder.growing head = message := by
        rw [Decoder.growing, pendingEq]
      have continues : head.opcode = .continuation := by
        rcases known with isText | isBinary | isContinuation
        · exact absurd (by rw [FrameHead.startsMessage, isText, pendingEq]; simp) inSequence
        · exact absurd (by rw [FrameHead.startsMessage, isBinary, pendingEq]; simp) inSequence
        · exact isContinuation
      simp only [continues]
      exact
        { isData := isData
          isMessage := by rw [growingEq]; exact isMessage
          final := rfl
          cursorFinal := rfl
          buffer := by rw [growingEq, List.append_nil]; exact buffer
          kind := by rw [growingEq]; exact kind
          compressed := by rw [growingEq]; exact compressed
          messageCompressed := by rw [growingEq]; exact compressed }

theorem recordFragment_live (live : Live ws decoder) (header : ParsedHeader) :
    Live (ws.recordFragment header) decoder ∧
      (ws.recordFragment header).dispatched = ws.dispatched := by
  unfold Connection.recordFragment
  cases header.opcode <;> exact ⟨⟨live.attached, live.isOpen, live.deflate⟩, rfl⟩

theorem recvParsedHeader_advances (codecs : Codecs Inflater) {base : Connection Inflater}
    {start : RecvCursor} {before : List UInt8 → List Event} (live : Live ws decoder)
    {head : FrameHead} (clean : Clean ws) (pending : KeepsPending ws cursor decoder)
    (short : head.shortLength < 128) (noReserved : head.rsv23 = 0)
    (role : head.masked = options.isServer) {next : ReceiveState}
    (nextEq : stateAfterHeader head.opcode head.shortLength = some next)
    (sameLog : ws.dispatched = base.dispatched)
    (lighter : 4 * cursor.data.length + 3 < start.weight)
    (same : ∀ more, before more =
      decoder.proceed codecs options (decoder.readHead options head (cursor.data ++ more))) :
    Advances codecs options base start before
      (ws.recvParsedHeader codecs options cursor (head.parsed next)) := by
  rw [stateAfterHeader_eq short] at nextEq
  have known : head.isData = true ∨ head.isControl = true := by
    by_cases isData : head.isData = true
    · exact Or.inl isData
    · rw [if_neg isData] at nextEq
      by_cases isControl : head.isControl = true
      · exact Or.inr isControl
      · rw [if_neg isControl] at nextEq
        cases nextEq
  have violationEq := headViolation_eq decoder noReserved role known
  unfold Decoder.readHead at same
  unfold Connection.recvParsedHeader
  rw [fragmentationFailure_eq pending known next]
  by_cases outOfSequence : (head.startsMessage && decoder.pending.isSome ||
      head.opcode == .continuation && decoder.pending.isNone) = true
  · rw [if_pos outOfSequence] at violationEq ⊢
    refine advances_failed live.attached sameLog ?_
    intro more
    rw [same, violationEq]
    rfl
  · rw [if_neg outOfSequence] at violationEq ⊢
    by_cases fragmented : (head.isControl && !head.fin) = true
    · rw [if_pos fragmented] at violationEq ⊢
      refine advances_failed live.attached sameLog ?_
      intro more
      rw [same, violationEq]
      rfl
    · rw [if_neg fragmented] at violationEq ⊢
      obtain ⟨liveRecorded, sameRecorded⟩ := recordFragment_live live (head.parsed next)
      have compressedEq : ((head.parsed next).compressed &&
          (!((head.parsed next).opcode == .text || (head.parsed next).opcode == .binary) ||
            (ws.recordFragment (head.parsed next)).deflate.isNone)) =
          (head.rsv1 && !(head.startsMessage && decoder.deflate.isSome)) := by
        rw [liveRecorded.deflate, Bool.not_and, Option.not_isSome]
        rfl
      dsimp only
      rw [compressedEq]
      by_cases reserved : (head.rsv1 && !(head.startsMessage && decoder.deflate.isSome)) = true
      · rw [if_pos reserved] at violationEq ⊢
        refine advances_failed liveRecorded.attached (sameRecorded.trans sameLog) ?_
        intro more
        rw [same, violationEq]
        rfl
      · rw [if_neg reserved] at violationEq ⊢
        rw [violationEq] at same
        change Advances codecs options base start before
          ((accepted ws (head.parsed next)).recvPayloadLength codecs options
            (acceptedCursor cursor (head.parsed next)))
        obtain ⟨dataEq, stateEq, remainEq⟩ := acceptedCursor_fields cursor (head.parsed next)
        have readEq : head.lengthBytes = 0 → ∀ more, before more =
            decoder.proceed codecs options
              (match decoder.lengthViolation options head
                (acceptedCursor cursor (head.parsed next)).bodyRemain with
              | some failure => .violation failure
              | none =>
                  Decoder.readKey head (acceptedCursor cursor (head.parsed next)).bodyRemain
                    ((acceptedCursor cursor (head.parsed next)).data ++ more)) := by
          intro inHeader more
          rw [same, remainEq, dataEq]
          dsimp only
          rw [Decoder.readLength, inHeader, if_neg (by omega), Decoder.lengthOf, if_pos inHeader,
            List.drop_zero]
          rfl
        have liveAccepted := accepted_live live (head.parsed next)
        have cleanAccepted := accepted_clean clean (head.parsed next)
        have sameAccepted := (accepted_dispatched ws (head.parsed next)).trans sameLog
        have lighterAccepted :
            4 * (acceptedCursor cursor (head.parsed next)).data.length + 3 < start.weight := by
          rw [dataEq]
          exact lighter
        by_cases isData : head.isData = true
        · rw [if_pos isData] at nextEq
          obtain rfl : head.dataState = next := Option.some.inj nextEq
          have inMessage := inMessage_accepted pending isData outOfSequence head.dataState
          by_cases inHeader : head.lengthBytes = 0
          · refine recvPayloadLength_advances codecs liveAccepted cleanAccepted role ?_ sameAccepted
              lighterAccepted (readEq inHeader)
            refine Or.inl ⟨inMessage, ?_, ?_⟩
            · rw [stateEq]
              exact if_pos inHeader
            · rw [remainEq]
              rintro ⟨-, tooLong⟩
              change head.shortLength > _ at tooLong
              unfold maxPayloadLengthLimit at tooLong
              omega
          · refine recvPayloadLength_extended codecs liveAccepted cleanAccepted role (by omega) ?_
              inMessage sameAccepted lighterAccepted ?_
            · rw [stateEq]
              exact if_neg inHeader
            · intro more
              rw [same, dataEq]
        · have isControl : head.isControl = true := known.resolve_left isData
          rw [if_neg isData, if_pos isControl] at nextEq
          obtain rfl : controlState head.opcode = next := Option.some.inj nextEq
          have inHeader : head.lengthBytes = 0 := by
            rw [FrameHead.lengthBytes, if_neg isData]
          exact recvPayloadLength_advances codecs liveAccepted cleanAccepted role
            (Or.inr ⟨isControl, keepsPending_accepted pending isControl _, stateEq⟩) sameAccepted
            lighterAccepted (readEq inHeader)

theorem recvHeaderBytes_advances (codecs : Codecs Inflater) {base : Connection Inflater}
    {start : RecvCursor} {before : List UInt8 → List Event} (live : Live ws decoder)
    (clean : Clean ws) (pending : KeepsPending ws cursor decoder) (first second : UInt8)
    (sameLog : ws.dispatched = base.dispatched)
    (lighter : 4 * cursor.data.length + 3 < start.weight)
    (same : ∀ more, before more =
      decoder.proceed codecs options
        (decoder.readHead options (FrameHead.ofBytes first second) (cursor.data ++ more))) :
    Advances codecs options base start before
      (ws.recvHeaderBytes codecs options cursor first second) := by
  have short : (FrameHead.ofBytes first second).shortLength < 128 :=
    Nat.mod_lt _ (by decide)
  have opcodeValue : (FrameHead.ofBytes first second).opcode.toNat = first.toNat % 16 :=
    Opcode.toNat_fromRaw first.toNat
  unfold Connection.recvHeaderBytes
  rw [parseWebsocketHeader_eq]
  generalize FrameHead.ofBytes first second = head at same short opcodeValue ⊢
  have failed : ∀ failure, decoder.headViolation options head = some failure →
      Advances codecs options base start before (ws.recvFailed options cursor failure) := by
    intro failure violated
    refine advances_failed live.attached sameLog ?_
    intro more
    rw [same, Decoder.readHead, violated]
    rfl
  by_cases reserved : head.rsv23 ≠ 0
  · rw [if_pos reserved]
    refine failed _ ?_
    rw [Decoder.headViolation, if_pos reserved]
  · rw [if_neg reserved]
    by_cases role : head.masked ≠ options.isServer
    · rw [if_pos role]
      cases isServer : options.isServer with
      | true =>
          refine failed _ ?_
          rw [Decoder.headViolation, if_neg reserved, if_pos role, isServer]
      | false =>
          refine failed _ ?_
          rw [Decoder.headViolation, if_neg reserved, if_pos role, isServer]
    · rw [if_neg role]
      cases nextEq : stateAfterHeader head.opcode head.shortLength with
      | none =>
          refine failed _ ?_
          rw [stateAfterHeader_eq short] at nextEq
          have unknown : (!head.isData && !head.isControl) = true := by
            cases isData : head.isData with
            | true =>
                rw [if_pos isData] at nextEq
                cases nextEq
            | false =>
                cases isControl : head.isControl with
                | true =>
                    rw [if_neg (by rw [isData]; decide), if_pos isControl] at nextEq
                    cases nextEq
                | false => rfl
          rw [Decoder.headViolation, if_neg reserved, if_neg role, if_pos unknown, opcodeValue]
      | some next =>
          exact recvParsedHeader_advances codecs live clean pending short (not_not.mp reserved)
            (not_not.mp role) nextEq sameLog lighter same

theorem recvFrameHeader_advances (codecs : Codecs Inflater) (live : Live ws decoder)
    {fragment : Option UInt8} (isFragment : ws.headerFragment = fragment)
    (lengthBytes : ws.payloadLengthFrameLen = 0) (control : ws.controlFrameStarted = false)
    (state : cursor.state = .needHeader) (pending : KeepsPending ws cursor decoder)
    (starts : cursor.data ≠ []) :
    ∃ received, ws.recvFrameHeader codecs options cursor = some received ∧
      Advances codecs options ws cursor
        (fun more => (Position.boundary fragment).events codecs options decoder
          (cursor.data ++ more)) received := by
  have weightEq : cursor.weight = 4 * cursor.data.length := by
    rw [RecvCursor.weight, state]
    rfl
  unfold Connection.recvFrameHeader
  rw [isFragment]
  cases dataEq : cursor.data with
  | nil => exact absurd dataEq starts
  | cons byte rest =>
      rw [dataEq, List.length_cons] at weightEq
      cases fragment with
      | some first =>
          rw [if_neg (by simp)]
          refine ⟨_, rfl, ?_⟩
          have liveTaken : Live { ws with headerFragment := none } decoder :=
            ⟨live.attached, live.isOpen, live.deflate⟩
          refine recvHeaderBytes_advances codecs liveTaken ⟨rfl, lengthBytes, control⟩ ?_ first byte
            rfl ?_ ?_
          · exact pending
          · dsimp only
            omega
          · intro more
            exact Decoder.decode_eq_proceed codecs options decoder _
      | none =>
          cases rest with
          | nil =>
              rw [if_pos (by simp)]
              refine ⟨_, rfl, ?_⟩
              refine .waits [] decoder (.boundary (some byte)) rfl (List.append_nil _).symm
                ⟨⟨live.attached, live.isOpen, live.deflate⟩, ?_⟩
                (decode_single codecs options decoder byte) fun more => rfl
              exact .boundary (some byte) rfl lengthBytes control state pending
          | cons second rest =>
              rw [if_neg (by simp)]
              refine ⟨_, rfl, ?_⟩
              refine recvHeaderBytes_advances codecs live
                ⟨isFragment, lengthBytes, control⟩ ?_ byte second rfl ?_ ?_
              · exact pending
              · rw [List.length_cons] at weightEq
                dsimp only
                omega
              · intro more
                exact Decoder.decode_eq_proceed codecs options decoder _

/-! ### The loop -/

/-- Every step of the loop advances with the decoder and stays inside its slices. -/
theorem recvStep_advances (codecs : Codecs Inflater) {position : Position}
    (tracks : Tracks options ws cursor decoder position)
    (starts : cursor.state = .needHeader → cursor.data ≠ []) :
    ∃ received, ws.recvStep codecs options cursor = some received ∧
      Advances codecs options ws cursor
        (fun more => position.events codecs options decoder (cursor.data ++ more)) received := by
  obtain ⟨live, holds⟩ := tracks
  unfold Connection.recvStep
  cases holds with
  | boundary fragment isFragment lengthBytes control state pending =>
      simp only [state]
      exact recvFrameHeader_advances codecs live isFragment lengthBytes control state pending
        (starts state)
  | length head got fragment control role gotLength gotBytes short state inMessage =>
      have extended : 0 < head.lengthBytes := by omega
      rcases lengthBytes_cases inMessage.isData extended with ⟨width, -⟩ | ⟨width, -⟩
      · have isShort : cursor.state = .extendedPayloadLength16 := by
          rw [state, if_pos width]
        have advances := recvExtendedPayloadLength_advances codecs live fragment control role
          gotLength gotBytes short (by rw [isShort]; rfl) state inMessage
        rw [width] at advances
        simp only [isShort]
        exact advances
      · have isLong : cursor.state = .extendedPayloadLength64 := by
          rw [state, if_neg (by omega)]
        have advances := recvExtendedPayloadLength_advances codecs live fragment control role
          gotLength gotBytes short (by rw [isLong]; rfl) state inMessage
        rw [width] at advances
        simp only [isLong]
        exact advances
  | key head length got clean role masked state remain gotLength gotBytes short inFrame =>
      simp only [state]
      exact recvMaskKey_advances codecs live clean role masked state remain gotLength gotBytes short
        inFrame
  | body head length got clean role state remain inMessage =>
      simp only [state]
      exact ⟨_, rfl, recvBody_advances codecs live clean role state remain inMessage⟩
  | maskedBody head length key got clean state remain rotated inMessage =>
      simp only [state]
      exact ⟨_, rfl, recvMaskedBody_advances codecs live clean state remain rotated inMessage⟩
  | control head length key got fragment lengthBytes state role hasKey held inControl =>
      rcases opcode_of_isControl inControl.isControl with isClose | isPing | isPong
      · have stateEq : cursor.state = .close := by rw [state, isClose]; rfl
        simp only [stateEq]
        exact recvClose_advances codecs live fragment lengthBytes state role hasKey held inControl
          isClose
      · have stateEq : cursor.state = .ping := by rw [state, isPing]; rfl
        simp only [stateEq]
        rw [← isPing]
        exact recvPingOrPong_advances codecs live fragment lengthBytes state role hasKey held
          inControl (Or.inl isPing)
      · have stateEq : cursor.state = .pong := by rw [state, isPong]; rfl
        simp only [stateEq]
        rw [← isPong]
        exact recvPingOrPong_advances codecs live fragment lengthBytes state role hasKey held
          inControl (Or.inr isPong)

theorem holds_cursorFor {position : Position}
    (holds : Holds options ws cursor decoder position) (data : List UInt8)
    {after : Connection Inflater}
    (afterEq : after = { ws with
      receiveState := cursor.state
      receivingType := cursor.lastDataType
      receiveBodyRemain := cursor.bodyRemain }) :
    Holds options after (after.cursorFor data) decoder position := by
  subst afterEq
  cases holds with
  | boundary fragment isFragment lengthBytes control state pending =>
      exact .boundary fragment isFragment lengthBytes control state pending
  | length head got fragment control role gotLength gotBytes short state inMessage =>
      exact .length head got fragment control role gotLength gotBytes short state
        { inMessage with cursorFinal := inMessage.final }
  | key head length got clean role masked state remain gotLength gotBytes short inFrame =>
      refine .key head length got ⟨clean.fragment, clean.lengthBytes, clean.control⟩ role masked
        state remain gotLength gotBytes short ?_
      rcases inFrame with ⟨inMessage, isMasked⟩ | ⟨inControl, isControl⟩
      · exact Or.inl ⟨{ inMessage with cursorFinal := inMessage.final }, isMasked⟩
      · exact Or.inr ⟨{ inControl with }, isControl⟩
  | body head length got clean role state remain inMessage =>
      exact .body head length got ⟨clean.fragment, clean.lengthBytes, clean.control⟩ role state
        remain { inMessage with cursorFinal := inMessage.final }
  | maskedBody head length key got clean state remain rotated inMessage =>
      exact .maskedBody head length key got ⟨clean.fragment, clean.lengthBytes, clean.control⟩
        state remain rotated { inMessage with cursorFinal := inMessage.final }
  | control head length key got fragment lengthBytes state role hasKey held inControl =>
      exact .control head length key got fragment lengthBytes state role hasKey held
        { inControl with }

theorem state_ne_closed {position : Position} (holds : Holds options ws cursor decoder position) :
    cursor.state ≠ .closed := by
  cases holds with
  | boundary fragment isFragment lengthBytes control state pending =>
      rw [state]
      decide
  | length head got fragment control role gotLength gotBytes short state inMessage =>
      rw [state]
      split <;> decide
  | key head length got clean role masked state remain gotLength gotBytes short inFrame =>
      rw [state]
      decide
  | body head length got clean role state remain inMessage =>
      rw [state]
      decide
  | maskedBody head length key got clean state remain rotated inMessage =>
      rw [state]
      decide
  | control head length key got fragment lengthBytes state role hasKey held inControl =>
      rw [state]
      cases head.opcode <;> decide

/-- A connection between two reads: ended, or at a position where the frame is not
complete. -/
inductive Rests (codecs : Codecs Inflater) (options : ConnectedOptions)
    (ws : Connection Inflater) (before : List UInt8 → List Event) (events : List Event) : Prop
  | ended (closed : ws.receiveState = .closed) (same : ∀ more, before more = events)
  | open (decoder : Decoder Inflater) (position : Position)
      (tracks : ∀ data, Tracks options ws (ws.cursorFor data) decoder position)
      (short : position.events codecs options decoder [] = [])
      (same : ∀ more, before more = events ++ position.events codecs options decoder more)

/-- The loop ends, and reports what the decoder reports on the bytes of the read. -/
theorem dataLoop_rests (codecs : Codecs Inflater) (fuel : Nat) {position : Position}
    (tracks : Tracks options ws cursor decoder position)
    (starts : cursor.state = .needHeader → cursor.data ≠ [])
    (enough : cursor.weight + 2 ≤ fuel) :
    ∃ after events, Connection.dataLoop codecs options fuel ws cursor = some after ∧
      after.dispatched = ws.dispatched ++ events ∧
      Rests codecs options after
        (fun more => position.events codecs options decoder (cursor.data ++ more)) events := by
  induction fuel generalizing ws cursor decoder position with
  | zero => omega
  | succ fuel shorter =>
      obtain ⟨received, receivedEq, advances⟩ := recvStep_advances codecs tracks starts
      rw [Connection.dataLoop, if_neg tracks.live.isOpen, receivedEq]
      dsimp only
      cases advances with
      | ends events closed log same =>
          have ended : Rests codecs options received.connection _ events :=
            .ended closed same
          cases stepEq : received.step with
          | terminated => exact ⟨_, events, rfl, log, ended⟩
          | needMoreData =>
              refine ⟨_, events, rfl, ?_⟩
              rw [Connection.keepCursor, if_pos closed]
              exact ⟨log, ended⟩
          | goOn =>
              cases fuel with
              | zero => omega
              | succ fuel =>
                  refine ⟨received.connection, events, ?_, log, ended⟩
                  simp only [Connection.dataLoop, if_pos closed]
      | waits events next nextPosition step log tracksNext short same =>
          rw [step]
          refine ⟨_, events, rfl, ?_⟩
          rw [Connection.keepCursor, if_neg tracksNext.live.isOpen]
          refine ⟨log, .open next nextPosition ?_ short same⟩
          intro data
          exact ⟨⟨tracksNext.live.attached, state_ne_closed tracksNext.holds,
            tracksNext.live.deflate⟩, holds_cursorFor tracksNext.holds data rfl⟩
      | moves events next nextPosition step log tracksNext startsNext lighter same =>
          rw [step]
          obtain ⟨after, later, loopEq, laterLog, rests⟩ :=
            shorter tracksNext startsNext (by omega)
          refine ⟨after, events ++ later, loopEq, ?_, ?_⟩
          · rw [laterLog, log, List.append_assoc]
          · cases rests with
            | ended closed sameLater =>
                refine .ended closed fun more => ?_
                rw [same, sameLater]
            | «open» last lastPosition tracksLast short sameLater =>
                refine .open last lastPosition tracksLast short fun more => ?_
                rw [same, sameLater, List.append_assoc]

/-! ### The reads of a connection -/

theorem handleDataLoop_closed (closed : ws.receiveState = .closed) (codecs : Codecs Inflater)
    (options : ConnectedOptions) (data : List UInt8) :
    ws.handleDataLoop codecs options data = some ws := by
  simp only [Connection.handleDataLoop, Connection.dataLoop, if_pos closed]

theorem handleReads_closed (closed : ws.receiveState = .closed) (codecs : Codecs Inflater)
    (options : ConnectedOptions) (reads : List (List UInt8)) :
    Connection.handleReads codecs options ws reads = some ws := by
  induction reads with
  | nil => rfl
  | cons data reads rest =>
      rw [Connection.handleReads, handleDataLoop_closed closed]
      exact rest

theorem handleDataLoop_rests (codecs : Codecs Inflater) {position : Position} {data : List UInt8}
    (tracks : Tracks options ws (ws.cursorFor data) decoder position) (nonempty : data ≠ []) :
    ∃ after events, ws.handleDataLoop codecs options data = some after ∧
      after.dispatched = ws.dispatched ++ events ∧
      Rests codecs options after
        (fun more => position.events codecs options decoder (data ++ more)) events := by
  refine dataLoop_rests codecs _ tracks (fun _ => nonempty) ?_
  have rankLe := ws.receiveState.rank_le
  change 4 * data.length + ws.receiveState.rank + 2 ≤ _
  omega

theorem handleReads_events (codecs : Codecs Inflater) {position : Position}
    (tracks : ∀ data, Tracks options ws (ws.cursorFor data) decoder position)
    (short : position.events codecs options decoder [] = []) (reads : List (List UInt8))
    (nonempty : ∀ data ∈ reads, data ≠ []) :
    ∃ after, Connection.handleReads codecs options ws reads = some after ∧
      after.dispatched =
        ws.dispatched ++ position.events codecs options decoder reads.flatten := by
  induction reads generalizing ws decoder position with
  | nil =>
      refine ⟨ws, rfl, ?_⟩
      rw [List.flatten_nil, short, List.append_nil]
  | cons data reads rest =>
      obtain ⟨after, events, loopEq, log, rests⟩ := handleDataLoop_rests codecs (tracks data)
        (nonempty data List.mem_cons_self)
      rw [Connection.handleReads, loopEq]
      dsimp only
      cases rests with
      | ended closed same =>
          refine ⟨after, handleReads_closed closed codecs options reads, ?_⟩
          rw [log, List.flatten_cons, same]
      | «open» next nextPosition tracksNext shortNext same =>
          obtain ⟨last, readsEq, lastLog⟩ := rest tracksNext shortNext
            fun later isIn => nonempty later (List.mem_cons_of_mem _ isIn)
          refine ⟨last, readsEq, ?_⟩
          rw [lastLog, log, List.flatten_cons, same, List.append_assoc]

theorem tracks_newRaw (options : ConnectedOptions) (deflate : Option Inflater)
    (data : List UInt8) :
    Tracks options (newRaw deflate) ((newRaw deflate).cursorFor data)
      { pending := none, deflate := deflate } (.boundary none) :=
  ⟨⟨rfl, by simp [newRaw], rfl⟩, .boundary none rfl rfl rfl rfl ⟨rfl, rfl⟩⟩

/-- However a received stream is cut into reads, the receiver stays inside its slices
and dispatches the events of the decoder of the whole stream, of which only the last
can be a Close or a failure. -/
theorem handleReads_eq_decode (codecs : Codecs Inflater) (options : ConnectedOptions)
    (deflate : Option Inflater) (reads : List (List UInt8))
    (nonempty : ∀ data ∈ reads, data ≠ []) :
    ∃ after, Connection.handleReads codecs options (newRaw deflate) reads = some after ∧
      after.dispatched =
        Decoder.decode codecs options { pending := none, deflate := deflate } reads.flatten ∧
      ∀ event ∈ after.dispatched.dropLast, event.isLast = false := by
  obtain ⟨after, readsEq, log⟩ := handleReads_events codecs (tracks_newRaw options deflate)
    (decode_nil codecs options _) reads nonempty
  refine ⟨after, readsEq, log, ?_⟩
  rw [log]
  exact Decoder.decode_dropLast codecs options _ _

/-- Codecs of a connection without compression that takes every text. -/
def plainCodecs : Codecs Unit :=
  { isValidUtf8 := fun _ => true
    decompress := fun window _ _ => (window, .error .inflateFailed) }

/-- A Ping between the two fragments of a text, in three reads that cut two headers. -/
theorem handleReads_eq_decode_interleaved :
    (∀ data ∈ [[0x01], [0x01, 0x48, 0x89], [0x00, 0x80, 0x01, (0x69 : UInt8)]], data ≠ []) ∧
      ∃ after,
        Connection.handleReads plainCodecs
            { maxPayloadLength := 0, wsMode := false, skipUtf8Validation := false, isServer := false }
            (newRaw none) [[0x01], [0x01, 0x48, 0x89], [0x00, 0x80, 0x01, 0x69]] = some after ∧
          after.dispatched = [.received .ping [], .received .text [0x48, 0x69]] := by
  have nonempty :
      ∀ data ∈ [[0x01], [0x01, 0x48, 0x89], [0x00, 0x80, 0x01, (0x69 : UInt8)]], data ≠ [] := by
    decide
  refine ⟨nonempty, ?_⟩
  obtain ⟨after, readsEq, log, -⟩ := handleReads_eq_decode plainCodecs
    { maxPayloadLength := 0, wsMode := false, skipUtf8Validation := false, isServer := false }
    none _ nonempty
  refine ⟨after, readsEq, log.trans ?_⟩
  decide +kernel

end Bun.WebSocket
