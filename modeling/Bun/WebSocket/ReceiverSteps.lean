/-
Each step of the frame loop advances with the decoder.
-/

import Bun.WebSocket.ReceiverDecodes

set_option autoImplicit false

namespace Bun.WebSocket

open Bun.Foundation

variable {Inflater : Type} {codecs : Codecs Inflater} {options : ConnectedOptions}
variable {ws : Connection Inflater} {cursor : RecvCursor} {decoder : Decoder Inflater}

/-! ### Data frames -/

theorem recvBody_advances (codecs : Codecs Inflater) (live : Live ws decoder)
    {head : FrameHead} {length : Nat} {got : List UInt8} (clean : Clean ws)
    (role : options.isServer = false) (state : cursor.state = .needBody)
    (remain : cursor.bodyRemain + got.length = length)
    (inMessage : InMessage ws cursor decoder head got) :
    Advances codecs options ws cursor
      (fun more => (Position.payload head length none got).events codecs options decoder
        (cursor.data ++ more)) (ws.recvBody codecs options cursor) := by
  have weightEq : cursor.weight = 4 * cursor.data.length + 1 := by
    rw [RecvCursor.weight, state]
    rfl
  by_cases enough : cursor.bodyRemain ≤ cursor.data.length
  · have countEq : min cursor.bodyRemain cursor.data.length = cursor.bodyRemain :=
      Nat.min_eq_left enough
    have chunkLength : (cursor.data.take cursor.bodyRemain).length = cursor.bodyRemain :=
      List.length_take_of_le enough
    have same : ∀ more,
        (Position.payload head length none got).events codecs options decoder
            (cursor.data ++ more) =
          decoder.proceed codecs options
            (.frame head (got ++ cursor.data.take cursor.bodyRemain)
              (cursor.data.drop cursor.bodyRemain ++ more)) := by
      intro more
      exact congrArg (Decoder.proceed codecs options decoder)
        (readPayload_whole head length none got cursor.data more _ remain enough)
    have lighter : 4 * (cursor.data.drop cursor.bodyRemain).length < cursor.weight := by
      rw [weightEq, List.length_drop]
      omega
    cases fin : head.fin with
    | true =>
        have consumed := Connection.consume_delivered ws live.attached codecs options
          (cursor.data.take cursor.bodyRemain) cursor.lastDataType
          (inMessage.kind ▸ inMessage.isMessage) decoder live.deflate
        rw [chunkLength, inMessage.buffer, inMessage.kind, inMessage.compressed,
          List.append_assoc] at consumed
        have stepEq : ws.recvBody codecs options cursor =
            { step := if (cursor.data.drop cursor.bodyRemain).isEmpty then .needMoreData else .goOn
              connection := (ws.consume codecs options (cursor.data.take cursor.bodyRemain)
                cursor.bodyRemain cursor.lastDataType true).1
              cursor :=
                { cursor with
                  bodyRemain := 0
                  data := cursor.data.drop cursor.bodyRemain
                  state := .needHeader } } := by
          rw [Connection.recvBody, countEq, inMessage.cursorFinal, fin, inMessage.kind, consumed.1,
            Nat.sub_self]
          rfl
        rw [stepEq]
        refine advances_message ws _ live.attached live.isOpen clean inMessage fin rfl ?_ rfl rfl
          lighter same
        rw [inMessage.kind]
        exact consumed.2
    | false =>
        obtain ⟨bodyRemain, consumed⟩ := Connection.consume_buffered ws codecs options
          (cursor.data.take cursor.bodyRemain) cursor.bodyRemain cursor.lastDataType false (by simp)
        have stepEq : ws.recvBody codecs options cursor =
            { step := if (cursor.data.drop cursor.bodyRemain).isEmpty then .needMoreData else .goOn
              connection :=
                { ws with
                  receiveBuffer := ws.receiveBuffer ++ cursor.data.take cursor.bodyRemain
                  receiveBodyRemain := bodyRemain }
              cursor :=
                { cursor with
                  bodyRemain := 0
                  data := cursor.data.drop cursor.bodyRemain
                  state := .needHeader } } := by
          rw [Connection.recvBody, countEq, inMessage.cursorFinal, fin, consumed, chunkLength,
            Nat.sub_self]
          rfl
        rw [stepEq]
        refine advances_fragment decoder ⟨live.attached, live.isOpen, live.deflate⟩
          ⟨clean.fragment, clean.lengthBytes, clean.control⟩ ?_ fin rfl rfl rfl
          lighter same
        refine { inMessage with buffer := ?_ }
        change ws.receiveBuffer ++ _ = _
        rw [inMessage.buffer, List.append_assoc]
  · have countEq : min cursor.bodyRemain cursor.data.length = cursor.data.length := by omega
    obtain ⟨bodyRemain, consumed⟩ := Connection.consume_buffered ws codecs options cursor.data
      cursor.bodyRemain cursor.lastDataType cursor.isFinal (by omega)
    have stepEq : ws.recvBody codecs options cursor =
        { step := .needMoreData
          connection :=
            { ws with
              receiveBuffer := ws.receiveBuffer ++ cursor.data
              receiveBodyRemain := bodyRemain }
          cursor :=
            { cursor with bodyRemain := cursor.bodyRemain - cursor.data.length, data := [] } } := by
      have notDone : ¬cursor.bodyRemain - cursor.data.length = 0 := by omega
      rw [Connection.recvBody, countEq, List.take_length, consumed, List.drop_length]
      simp only [if_neg notDone, List.isEmpty_nil, if_true]
    rw [stepEq]
    have shortBytes : (got ++ cursor.data).length < length := by
      rw [List.length_append]
      omega
    refine .waits [] decoder (.payload head length none (got ++ cursor.data)) rfl
      (List.append_nil _).symm ⟨⟨live.attached, live.isOpen, live.deflate⟩, ?_⟩ ?_ ?_
    · refine .body head length (got ++ cursor.data)
        ⟨clean.fragment, clean.lengthBytes, clean.control⟩ role state ?_
        { inMessage with buffer := ?_ }
      · rw [List.length_append]
        change cursor.bodyRemain - cursor.data.length + _ = _
        omega
      · change ws.receiveBuffer ++ _ = _
        rw [inMessage.buffer, List.append_assoc]
    · rw [Position.events, List.append_nil, readPayload_short _ _ _ _ shortBytes]
      rfl
    · intro more
      simp only [Position.events, List.append_assoc, List.nil_append]

theorem fillWithSkipMask_eq (key : FixedArray UInt8 4) (input : List UInt8) :
    fillWithSkipMask key input false = unmasked key.items input := rfl

def takeMasked (ws : Connection Inflater) (chunk : List UInt8) : Connection Inflater :=
  { ws with
    receiveBuffer := ws.receiveBuffer ++ unmasked ws.unmask.key.items chunk
    unmask := { ws.unmask with key := ws.unmask.key.rotateLeft chunk.length } }

theorem takeMasked_eq (ws : Connection Inflater) (chunk : List UInt8) :
    (if chunk.isEmpty then ws
      else
        { ws with
          receiveBuffer := ws.receiveBuffer ++ (ws.unmask.copy chunk).1
          unmask := (ws.unmask.copy chunk).2 }) = takeMasked ws chunk := by
  cases chunk with
  | nil =>
      rw [if_pos List.isEmpty_nil, takeMasked, List.length_nil, FixedArray.rotateLeft_zero]
      simp [unmasked]
  | cons byte rest =>
      rw [if_neg (by simp), takeMasked, Unmask.copy, FixedArray.rotateLeft_mod,
        fillWithSkipMask_eq]

theorem inMessage_takeMasked {head : FrameHead} {key : FixedArray UInt8 4}
    {got : List UInt8} (rotated : ws.unmask.key = key.rotateLeft got.length)
    (inMessage : InMessage ws cursor decoder head (unmasked key.items got))
    (chunk : List UInt8) :
    InMessage (takeMasked ws chunk) cursor decoder head (unmasked key.items (got ++ chunk)) := by
  refine { inMessage with buffer := ?_ }
  rw [takeMasked, inMessage.buffer, rotated, unmasked_append, List.append_assoc]

theorem recvMaskedBody_advances (codecs : Codecs Inflater) (live : Live ws decoder)
    {head : FrameHead} {length : Nat} {key : FixedArray UInt8 4} {got : List UInt8}
    (clean : Clean ws) (state : cursor.state = .maskedBody)
    (remain : cursor.bodyRemain + got.length = length)
    (rotated : ws.unmask.key = key.rotateLeft got.length)
    (inMessage : InMessage ws cursor decoder head (unmasked key.items got)) :
    Advances codecs options ws cursor
      (fun more => (Position.payload head length (some key) got).events codecs options decoder
        (cursor.data ++ more)) (ws.recvMaskedBody codecs options cursor) := by
  have weightEq : cursor.weight = 4 * cursor.data.length + 1 := by
    rw [RecvCursor.weight, state]
    rfl
  by_cases enough : cursor.bodyRemain ≤ cursor.data.length
  · have countEq : min cursor.bodyRemain cursor.data.length = cursor.bodyRemain :=
      Nat.min_eq_left enough
    have taken := inMessage_takeMasked rotated inMessage (cursor.data.take cursor.bodyRemain)
    have same : ∀ more,
        (Position.payload head length (some key) got).events codecs options decoder
            (cursor.data ++ more) =
          decoder.proceed codecs options
            (.frame head (unmasked key.items (got ++ cursor.data.take cursor.bodyRemain))
              (cursor.data.drop cursor.bodyRemain ++ more)) := by
      intro more
      exact congrArg (Decoder.proceed codecs options decoder)
        (readPayload_whole head length (some key.items) got cursor.data more _ remain enough)
    have lighter : 4 * (cursor.data.drop cursor.bodyRemain).length < cursor.weight := by
      rw [weightEq, List.length_drop]
      omega
    have stepEq : ws.recvMaskedBody codecs options cursor =
        { step := if (cursor.data.drop cursor.bodyRemain).isEmpty then .needMoreData else .goOn
          connection :=
            if head.fin then
              (takeMasked ws (cursor.data.take cursor.bodyRemain)).dispatchBufferedMessage codecs
                options (decoder.growing head).opcode (decoder.growing head).compressed
            else takeMasked ws (cursor.data.take cursor.bodyRemain)
          cursor :=
            { cursor with
              bodyRemain := 0
              data := cursor.data.drop cursor.bodyRemain
              state := .needHeader } } := by
      rw [Connection.recvMaskedBody, countEq]
      simp only [takeMasked_eq, Nat.sub_self, if_true, taken.compressed, taken.kind,
        taken.cursorFinal]
    rw [stepEq]
    cases fin : head.fin with
    | true =>
        have delivered := Connection.dispatchBufferedMessage_delivered
          (takeMasked ws (cursor.data.take cursor.bodyRemain)) live.attached codecs options
          taken.isMessage (decoder.growing head).compressed decoder live.deflate
        rw [taken.buffer] at delivered
        exact advances_message (takeMasked ws (cursor.data.take cursor.bodyRemain)) _
          live.attached live.isOpen ⟨clean.fragment, clean.lengthBytes, clean.control⟩ taken fin rfl
          delivered rfl rfl lighter same
    | false =>
        exact advances_fragment decoder ⟨live.attached, live.isOpen, live.deflate⟩
          ⟨clean.fragment, clean.lengthBytes, clean.control⟩
          { taken with } fin rfl rfl rfl lighter same
  · have countEq : min cursor.bodyRemain cursor.data.length = cursor.data.length := by omega
    have stepEq : ws.recvMaskedBody codecs options cursor =
        { step := .needMoreData
          connection := takeMasked ws cursor.data
          cursor :=
            { cursor with bodyRemain := cursor.bodyRemain - cursor.data.length, data := [] } } := by
      have notDone : ¬cursor.bodyRemain - cursor.data.length = 0 := by omega
      rw [Connection.recvMaskedBody, countEq]
      simp only [List.take_length, List.drop_length, takeMasked_eq, if_neg notDone,
        List.isEmpty_nil, if_true]
    rw [stepEq]
    have shortBytes : (got ++ cursor.data).length < length := by
      rw [List.length_append]
      omega
    refine .waits [] decoder (.payload head length (some key) (got ++ cursor.data)) rfl
      (List.append_nil _).symm ⟨⟨live.attached, live.isOpen, live.deflate⟩, ?_⟩ ?_ ?_
    · refine .maskedBody head length key (got ++ cursor.data)
        ⟨clean.fragment, clean.lengthBytes, clean.control⟩ state ?_ ?_
        { inMessage_takeMasked rotated inMessage cursor.data with }
      · rw [List.length_append]
        change cursor.bodyRemain - cursor.data.length + _ = _
        omega
      · change ws.unmask.key.rotateLeft _ = _
        rw [rotated, FixedArray.rotateLeft_rotateLeft, List.length_append]
    · rw [Position.events, List.append_nil, readPayload_short _ _ _ _ shortBytes]
      rfl
    · intro more
      simp only [Position.events, List.append_assoc, List.nil_append]

/-! ### Control frames -/

def bufferedControl (ws : Connection Inflater) (bytes : FixedArray UInt8 maxControlPayload)
    (length : Nat) (started : Bool) : Connection Inflater :=
  { ws with
    controlPayload := bytes
    controlPayloadLen := length
    controlFrameStarted := started }

theorem bufferControlPayload_eq (options : ConnectedOptions) {length : Nat} {got : List UInt8}
    (holds : HoldsControl ws cursor length got) (short : length ≤ maxControlPayload) :
    let copied := min (length - got.length) cursor.data.length
    let after := { cursor with
      bodyRemain := got.length + copied, data := cursor.data.drop copied }
    ∃ bytes : FixedArray UInt8 maxControlPayload,
      bytes.items.take (got.length + copied) = got ++ cursor.data.take copied ∧
        ws.bufferControlPayload options cursor =
          if length > got.length + copied then
            some (bufferedControl ws bytes length true, after, none)
          else
            some (bufferedControl ws bytes length false, after,
              some (if options.isServer then
                fillWithSkipMask ws.unmask.key (bytes.items.take length) false
                else bytes.items.take length)) := by
  have startedEq :
      (if ws.controlFrameStarted then (ws, cursor)
        else
          ({ ws with controlPayloadLen := cursor.bodyRemain % 256, controlFrameStarted := true },
            { cursor with bodyRemain := 0 })) =
        (bufferedControl ws ws.controlPayload length true,
          { cursor with bodyRemain := got.length }) := by
    unfold maxControlPayload at short
    rcases holds with ⟨started, rfl, remain⟩ | ⟨started, sameLength, remain, -, -⟩
    · rw [if_neg (by rw [started]; decide), remain, Nat.mod_eq_of_lt (by omega)]
      rfl
    · rw [if_pos started, bufferedControl, ← sameLength, ← started, ← remain]
  have gotShort : got.length ≤ length := by
    rcases holds with ⟨-, rfl, -⟩ | ⟨-, -, -, -, within⟩
    · exact Nat.zero_le _
    · exact Nat.le_of_lt within
  have gotBytes : ws.controlPayload.items.take got.length = got := by
    rcases holds with ⟨-, rfl, -⟩ | ⟨-, -, -, same, -⟩
    · rfl
    · exact same
  intro copied after
  have copiedLength : (cursor.data.take copied).length = copied :=
    List.length_take_of_le (Nat.min_le_right _ _)
  have copiedLe : got.length + copied ≤ length := by
    have := Nat.min_le_left (length - got.length) cursor.data.length
    omega
  obtain ⟨bytes, written, front⟩ := ws.controlPayload.copyFromSlice_of_fits got.length
    (cursor.data.take copied) (by rw [copiedLength]; omega)
  rw [copiedLength, gotBytes] at front
  unfold Connection.bufferControlPayload
  simp only [startedEq]
  cases dataEq : cursor.data with
  | nil =>
      have copiedZero : copied = 0 := by simp [copied, dataEq]
      refine ⟨ws.controlPayload, ?_, ?_⟩
      · rw [copiedZero, List.take_zero, List.append_nil]
        exact gotBytes
      · simp only [after, copiedZero, dataEq, List.isEmpty_nil, if_true, List.drop_nil, Nat.add_zero]
        rfl
  | cons byte rest =>
      refine ⟨bytes, by rw [← dataEq]; exact front, ?_⟩
      have totalEq : min length (got.length + (byte :: rest).length) = got.length + copied := by
        simp only [copied, dataEq]
        omega
      have enough : ¬got.length + copied < got.length := by omega
      have sameWrite : (bufferedControl ws ws.controlPayload length true).controlPayload.copyFromSlice
          got.length (List.take copied (byte :: rest)) = some bytes := by
        rw [← dataEq]
        exact written
      have lengthEq : (bufferedControl ws ws.controlPayload length true).controlPayloadLen = length :=
        rfl
      simp only [lengthEq, List.isEmpty_cons, Bool.false_eq_true, if_false, totalEq, if_neg enough,
        Nat.add_sub_cancel_left, sameWrite, after, dataEq]
      rfl

theorem isData_of_isControl {head : FrameHead} (isControl : head.isControl = true) :
    head.isData = false := by
  unfold FrameHead.isControl at isControl
  unfold FrameHead.isData FrameHead.startsMessage
  cases opcode : head.opcode <;> simp_all

/-- A control payload that is not complete is kept for the next read. -/
theorem advances_control_waits {head : FrameHead} {length : Nat}
    {key : Option (FixedArray UInt8 4)} {got : List UInt8} (live : Live ws decoder)
    (fragment : ws.headerFragment = none) (lengthBytes : ws.payloadLengthFrameLen = 0)
    (state : cursor.state = controlState head.opcode) (role : key.isSome = options.isServer)
    (hasKey : ∀ bytes ∈ key, ws.unmask.key = bytes)
    (inControl : InControl ws cursor decoder head length)
    (incomplete : got.length + cursor.data.length < length)
    (bytes : FixedArray UInt8 maxControlPayload)
    (front : bytes.items.take (got.length + cursor.data.length) = got ++ cursor.data) :
    Advances codecs options ws cursor
      (fun more => (Position.payload head length key got).events codecs options decoder
        (cursor.data ++ more))
      { step := .needMoreData
        connection := bufferedControl ws bytes length true
        cursor := { cursor with bodyRemain := got.length + cursor.data.length, data := [] } } := by
  have shortBytes : (got ++ cursor.data).length < length := by
    rw [List.length_append]
    exact incomplete
  refine .waits [] decoder (.payload head length key (got ++ cursor.data)) rfl
    (List.append_nil _).symm ⟨⟨live.attached, live.isOpen, live.deflate⟩, ?_⟩ ?_ ?_
  · refine .control head length key (got ++ cursor.data) fragment lengthBytes state role hasKey
      (Or.inr ⟨rfl, rfl, ?_, ?_, shortBytes⟩)
      ⟨inControl.isControl, inControl.short, inControl.pending⟩
    · rw [List.length_append]
    · rw [List.length_append]
      exact front
  · rw [Position.events, List.append_nil, readPayload_short _ _ _ _ shortBytes]
    rfl
  · intro more
    simp only [Position.events, List.append_assoc, List.nil_append]

/-- What a control step sees of the payload: more bytes are needed, or it is complete. -/
theorem bufferControlPayload_cases (codecs : Codecs Inflater) {head : FrameHead} {length : Nat}
    {key : Option (FixedArray UInt8 4)} {got : List UInt8} (live : Live ws decoder)
    (fragment : ws.headerFragment = none) (lengthBytes : ws.payloadLengthFrameLen = 0)
    (state : cursor.state = controlState head.opcode) (role : key.isSome = options.isServer)
    (hasKey : ∀ bytes ∈ key, ws.unmask.key = bytes)
    (holds : HoldsControl ws cursor length got)
    (inControl : InControl ws cursor decoder head length) :
    (∃ after rest,
        ws.bufferControlPayload options cursor = some (after, rest, none) ∧
          Advances codecs options ws cursor
            (fun more => (Position.payload head length key got).events codecs options decoder
              (cursor.data ++ more))
            { step := .needMoreData, connection := after, cursor := rest }) ∨
      ∃ bytes bodyRemain payload rest,
        rest.length ≤ cursor.data.length ∧
          ws.bufferControlPayload options cursor =
            some (bufferedControl ws bytes length false,
              { cursor with bodyRemain := bodyRemain, data := rest }, some payload) ∧
          ∀ more,
            (Position.payload head length key got).events codecs options decoder
                (cursor.data ++ more) =
              decoder.proceed codecs options (.frame head payload (rest ++ more)) := by
  obtain ⟨bytes, front, bufferedEq⟩ := bufferControlPayload_eq options holds inControl.short
  have gotShort : got.length ≤ length := by
    rcases holds with ⟨-, rfl, -⟩ | ⟨-, -, -, -, within⟩
    · exact Nat.zero_le _
    · exact Nat.le_of_lt within
  by_cases enough : length - got.length ≤ cursor.data.length
  · right
    have copiedEq : min (length - got.length) cursor.data.length = length - got.length :=
      Nat.min_eq_left enough
    have totalEq : got.length + (length - got.length) = length := by omega
    rw [copiedEq, totalEq] at front
    rw [copiedEq, totalEq, if_neg (by omega)] at bufferedEq
    refine ⟨bytes, length, _, cursor.data.drop (length - got.length), ?_, bufferedEq, ?_⟩
    · rw [List.length_drop]
      omega
    · intro more
      have payloadEq : (if options.isServer then
            fillWithSkipMask ws.unmask.key (bytes.items.take length) false
          else bytes.items.take length) =
          unmaskedBy (key.map FixedArray.items)
            (got ++ cursor.data.take (length - got.length)) := by
        rw [front]
        cases key with
        | none =>
            rw [← role]
            rfl
        | some mask =>
            rw [← role, hasKey mask rfl]
            rfl
      rw [payloadEq]
      exact congrArg (Decoder.proceed codecs options decoder)
        (readPayload_whole head length _ got cursor.data more _ (by omega) enough)
  · left
    have copiedEq : min (length - got.length) cursor.data.length = cursor.data.length := by omega
    rw [copiedEq, List.take_length] at front
    rw [copiedEq, if_pos (by omega), List.drop_length] at bufferedEq
    exact ⟨_, _, bufferedEq, advances_control_waits live fragment lengthBytes state role hasKey
      inControl (by omega) bytes front⟩

theorem recvPingOrPong_advances (codecs : Codecs Inflater) {head : FrameHead} {length : Nat}
    {key : Option (FixedArray UInt8 4)} {got : List UInt8} (live : Live ws decoder)
    (fragment : ws.headerFragment = none) (lengthBytes : ws.payloadLengthFrameLen = 0)
    (state : cursor.state = controlState head.opcode) (role : key.isSome = options.isServer)
    (hasKey : ∀ bytes ∈ key, ws.unmask.key = bytes)
    (holds : HoldsControl ws cursor length got)
    (inControl : InControl ws cursor decoder head length)
    (pingOrPong : head.opcode = .ping ∨ head.opcode = .pong) :
    ∃ received, ws.recvPingOrPong codecs options cursor head.opcode = some received ∧
      Advances codecs options ws cursor
        (fun more => (Position.payload head length key got).events codecs options decoder
          (cursor.data ++ more)) received := by
  unfold Connection.recvPingOrPong
  rcases bufferControlPayload_cases codecs live fragment lengthBytes state role hasKey holds
    inControl with ⟨after, rest, bufferedEq, advances⟩ |
      ⟨bytes, bodyRemain, payload, rest, shorter, bufferedEq, same⟩
  · rw [bufferedEq]
    exact ⟨_, rfl, advances⟩
  · rw [bufferedEq]
    refine ⟨_, rfl, ?_⟩
    have handledEq : decoder.receive codecs options head payload =
        ([.received head.opcode payload], some decoder) := by
      have notClose : ¬head.opcode = .close := by
        rcases pingOrPong with isPing | isPong
        · rw [isPing]
          decide
        · rw [isPong]
          decide
      rw [Decoder.receive, isData_of_isControl inControl.isControl, if_neg (by decide),
        if_neg notClose]
    have dispatchEq : (bufferedControl ws bytes length false).dispatchData codecs options payload
        head.opcode = (bufferedControl ws bytes length false).emit
          (.received head.opcode payload) := by
      have attached : (bufferedControl ws bytes length false).attached = true := live.attached
      rw [Connection.dispatchData_eq attached codecs options payload
        (Or.inr (Or.inr pingOrPong))]
      rcases pingOrPong with isPing | isPong
      · rw [isPing]
        rfl
      · rw [isPong]
        rfl
    rw [dispatchEq]
    refine advances_boundary (decoder.receive codecs options head payload) rfl ?_ ?_ ?_ rfl ?_ same
    · rw [handledEq]
      rfl
    · rw [handledEq]
      intro isNone
      cases isNone
    · rw [handledEq]
      rintro next ⟨⟩
      refine ⟨⟨live.attached, live.isOpen, live.deflate⟩, ?_⟩
      exact .boundary none fragment lengthBytes rfl rfl inControl.pending
    · rw [RecvCursor.weight, state, controlState_rank]
      change 4 * rest.length < _
      omega

theorem acknowledgeClose_eq (attached : ws.attached = true) (cursor : RecvCursor) (code : Nat)
    (reason : List UInt8) :
    (ws.acknowledgeClose cursor code reason).connection.receiveState = .closed ∧
      (ws.acknowledgeClose cursor code reason).connection.dispatched =
        ws.dispatched ++ [.closing code reason] := by
  have still : (Connection.stopReading
      { ws with closeReceived := some (code, reason) }).attached = true := attached
  simp only [Connection.acknowledgeClose, still, if_true]
  exact ⟨rfl, rfl⟩

theorem recvClose_advances (codecs : Codecs Inflater) {head : FrameHead} {length : Nat}
    {key : Option (FixedArray UInt8 4)} {got : List UInt8} (live : Live ws decoder)
    (fragment : ws.headerFragment = none) (lengthBytes : ws.payloadLengthFrameLen = 0)
    (state : cursor.state = controlState head.opcode) (role : key.isSome = options.isServer)
    (hasKey : ∀ bytes ∈ key, ws.unmask.key = bytes)
    (holds : HoldsControl ws cursor length got)
    (inControl : InControl ws cursor decoder head length) (isClose : head.opcode = .close) :
    ∃ received, ws.recvClose codecs options cursor = some received ∧
      Advances codecs options ws cursor
        (fun more => (Position.payload head length key got).events codecs options decoder
          (cursor.data ++ more)) received := by
  unfold Connection.recvClose
  rcases bufferControlPayload_cases codecs live fragment lengthBytes state role hasKey holds
    inControl with ⟨after, rest, bufferedEq, advances⟩ |
      ⟨bytes, bodyRemain, payload, rest, shorter, bufferedEq, same⟩
  · rw [bufferedEq]
    exact ⟨_, rfl, advances⟩
  · rw [bufferedEq]
    have sameClose : ∀ more,
        (Position.payload head length key got).events codecs options decoder
          (cursor.data ++ more) = [Decoder.closeEvent codecs options payload] := by
      intro more
      rw [same more, Decoder.proceed, Decoder.receive, isData_of_isControl inControl.isControl,
        if_neg (by decide), if_pos isClose]
    have attached : (bufferedControl ws bytes length false).attached = true := live.attached
    have acknowledged : ∀ code reason,
        Decoder.closeEvent codecs options payload = .closing code reason →
        Advances codecs options ws cursor
          (fun more => (Position.payload head length key got).events codecs options decoder
            (cursor.data ++ more))
          ((bufferedControl ws bytes length false).acknowledgeClose
            { cursor with bodyRemain := bodyRemain, data := rest } code reason) := by
      intro code reason eventEq
      have reportedEq := acknowledgeClose_eq attached
        { cursor with bodyRemain := bodyRemain, data := rest } code reason
      refine .ends [.closing code reason] reportedEq.1 reportedEq.2 ?_
      intro more
      rw [sameClose, eventEq]
    rcases payload with _ | ⟨high, _ | ⟨low, reason⟩⟩
    · exact ⟨_, rfl, acknowledged _ _ rfl⟩
    · exact ⟨_, rfl, acknowledged _ _ rfl⟩
    · dsimp only
      by_cases invalidCode : (!isValidCloseCode (BigEndian.ofBytes [high, low])) = true
      · rw [if_pos invalidCode]
        refine ⟨_, rfl, advances_failed attached rfl ?_⟩
        intro more
        rw [sameClose, Decoder.closeEvent, if_pos invalidCode]
      · rw [if_neg invalidCode]
        by_cases invalidText : (!options.skipUtf8Validation && !codecs.isValidUtf8 reason) = true
        · rw [if_pos invalidText]
          refine ⟨_, rfl, advances_failed attached rfl ?_⟩
          intro more
          rw [sameClose, Decoder.closeEvent, if_neg invalidCode, if_pos invalidText]
        · rw [if_neg invalidText]
          refine ⟨_, rfl, acknowledged _ _ ?_⟩
          rw [Decoder.closeEvent, if_neg invalidCode, if_neg invalidText]

/-! ### The masking key -/

theorem controlState_ne_needHeader (opcode : Opcode) : controlState opcode ≠ .needHeader := by
  cases opcode <;> decide

theorem holds_payload (options : ConnectedOptions) {head : FrameHead} {length : Nat}
    (after : RecvCursor) (clean : Clean ws) (role : options.isServer = true)
    (remain : cursor.bodyRemain = length)
    (afterEq : after = { cursor with data := after.data, state := ws.unmask.payloadState })
    (inFrame :
      InMessage ws cursor decoder head [] ∧ ws.unmask.payloadState = .maskedBody ∨
        InControl ws cursor decoder head length ∧
          ws.unmask.payloadState = controlState head.opcode) :
    Holds options ws after decoder (.payload head length (some ws.unmask.key) []) ∧
      after.state.rank = 1 ∧ after.state ≠ .needHeader := by
  rcases inFrame with ⟨inMessage, isMasked⟩ | ⟨inControl, isControl⟩
  · rw [isMasked] at afterEq
    rw [afterEq]
    refine ⟨.maskedBody head length ws.unmask.key [] clean rfl remain ?_ ?_, rfl, by simp⟩
    · exact (FixedArray.rotateLeft_zero _).symm
    · exact { inMessage with }
  · rw [isControl] at afterEq
    rw [afterEq]
    refine ⟨.control head length (some ws.unmask.key) [] clean.fragment clean.lengthBytes rfl
      role.symm ?_ (Or.inl ⟨clean.control, rfl, remain⟩) { inControl with },
      controlState_rank _, controlState_ne_needHeader _⟩
    rintro bytes ⟨⟩
    rfl

theorem recvMaskKey_advances (codecs : Codecs Inflater) (live : Live ws decoder)
    {head : FrameHead} {length : Nat} {got : List UInt8} (clean : Clean ws)
    (role : options.isServer = true) (masked : head.masked = true)
    (state : cursor.state = .maskKey) (remain : cursor.bodyRemain = length)
    (gotLength : ws.unmask.keyLen = got.length)
    (gotBytes : ws.unmask.key.items.take got.length = got) (short : got.length < 4)
    (inFrame :
      InMessage ws cursor decoder head [] ∧ ws.unmask.payloadState = .maskedBody ∨
        InControl ws cursor decoder head length ∧
          ws.unmask.payloadState = controlState head.opcode) :
    ∃ received, ws.recvMaskKey cursor = some received ∧
      Advances codecs options ws cursor
        (fun more => (Position.key head length got).events codecs options decoder
          (cursor.data ++ more)) received := by
  generalize countEq : min (4 - got.length) cursor.data.length = count
  have takeLength : (cursor.data.take count).length = count :=
    List.length_take_of_le (by omega)
  obtain ⟨key, written, front⟩ := ws.unmask.key.copyFromSlice_of_fits got.length
    (cursor.data.take count) (by rw [takeLength]; omega)
  rw [takeLength, gotBytes] at front
  have readEq : ∀ bytes, Decoder.readKey head length bytes =
      if bytes.length < 4 then .short
      else Decoder.readPayload head length (some (bytes.take 4)) (bytes.drop 4) := by
    intro bytes
    rw [Decoder.readKey, if_pos masked]
  unfold Connection.recvMaskKey
  rw [gotLength, if_neg (by omega)]
  dsimp only
  rw [countEq, written]
  dsimp only
  by_cases incomplete : got.length + count < 4
  · rw [if_pos incomplete]
    have allTaken : count = cursor.data.length := by omega
    rw [allTaken, List.take_length] at front
    rw [allTaken]
    refine ⟨_, rfl, ?_⟩
    refine .waits [] decoder (.key head length (got ++ cursor.data)) rfl
      (List.append_nil _).symm ⟨⟨live.attached, live.isOpen, live.deflate⟩, ?_⟩ ?_ ?_
    · refine .key head length (got ++ cursor.data)
        ⟨clean.fragment, clean.lengthBytes, clean.control⟩ role masked state remain ?_ ?_ ?_ ?_
      · rw [List.length_append]
      · rw [List.length_append]
        exact front
      · rw [List.length_append]
        omega
      · rcases inFrame with ⟨inMessage, isMasked⟩ | ⟨inControl, isControl⟩
        · exact Or.inl ⟨{ inMessage with }, isMasked⟩
        · exact Or.inr ⟨{ inControl with }, isControl⟩
    · rw [Position.events, List.append_nil, readEq, if_pos (by rw [List.length_append]; omega)]
      rfl
    · intro more
      simp only [Position.events, List.append_assoc, List.nil_append]
  · rw [if_neg incomplete]
    refine ⟨_, rfl, ?_⟩
    have countWhole : count = 4 - got.length := by omega
    have frontWhole : key.items = got ++ cursor.data.take count := by
      rw [← front, show got.length + count = 4 by omega, FixedArray.take_size]
    have complete : ∀ connection, connection =
        { ws with unmask := { ws.unmask with key := key, keyLen := got.length + count } } →
        Live connection decoder ∧ Clean connection ∧ connection.dispatched = ws.dispatched ∧
          connection.unmask.key = key ∧
          connection.unmask.payloadState = ws.unmask.payloadState ∧
          (InMessage connection cursor decoder head [] ∧
              connection.unmask.payloadState = .maskedBody ∨
            InControl connection cursor decoder head length ∧
              connection.unmask.payloadState = controlState head.opcode) := by
      rintro connection rfl
      refine ⟨⟨live.attached, live.isOpen, live.deflate⟩,
        ⟨clean.fragment, clean.lengthBytes, clean.control⟩, rfl, rfl, rfl, ?_⟩
      rcases inFrame with ⟨inMessage, isMasked⟩ | ⟨inControl, isControl⟩
      · exact Or.inl ⟨{ inMessage with }, isMasked⟩
      · exact Or.inr ⟨{ inControl with }, isControl⟩
    obtain ⟨liveAfter, cleanAfter, sameLog, keyEq, stateEq, inFrameAfter⟩ := complete _ rfl
    obtain ⟨holds, rankEq, notHeader⟩ := holds_payload options
      { cursor with data := cursor.data.drop count, state := ws.unmask.payloadState }
      cleanAfter role remain rfl inFrameAfter
    refine .moves [] decoder (.payload head length (some key) []) rfl (List.append_nil _).symm
      ⟨liveAfter, holds⟩ (fun isHeader => absurd isHeader notHeader) ?_ ?_
    · have before : cursor.weight = 4 * cursor.data.length + 2 := by
        rw [RecvCursor.weight, state]
        rfl
      have after : RecvCursor.weight
          { cursor with data := cursor.data.drop count, state := ws.unmask.payloadState } =
          4 * (cursor.data.drop count).length + 1 := by
        rw [RecvCursor.weight, rankEq]
      rw [before, after, List.length_drop]
      omega
    · intro more
      have whole : got ++ (cursor.data ++ more) =
          key.items ++ (cursor.data.drop count ++ more) := by
        rw [frontWhole, List.append_assoc, ← List.append_assoc (cursor.data.take count),
          List.take_append_drop]
      simp only [Position.events, List.nil_append, Option.map_some]
      rw [whole, readEq, if_neg (by rw [List.length_append, key.length_items]; omega)]
      rw [List.take_append_of_le_length (by rw [key.length_items]), key.take_size,
        List.drop_append_of_le_length (by rw [key.length_items]),
        List.drop_of_length_le (by rw [key.length_items]), List.nil_append]

/-! ### The length of a frame -/

/-- A frame whose length is known and not yet checked: the payload of a data frame that
has an encodable length, or a control frame. -/
def AtLength (ws : Connection Inflater) (cursor : RecvCursor) (decoder : Decoder Inflater)
    (head : FrameHead) : Prop :=
  (InMessage ws cursor decoder head [] ∧ cursor.state = .needBody ∧
      ¬(head.shortLength = 127 ∧ cursor.bodyRemain > maxPayloadLengthLimit)) ∨
    (head.isControl = true ∧ KeepsPending ws cursor decoder ∧
      cursor.state = controlState head.opcode)

theorem opcode_of_isControl {head : FrameHead} (isControl : head.isControl = true) :
    head.opcode = .close ∨ head.opcode = .ping ∨ head.opcode = .pong := by
  simpa [FrameHead.isControl, or_assoc] using isControl

theorem payloadLengthFailure_eq (options : ConnectedOptions) {head : FrameHead}
    (atLength : AtLength ws cursor decoder head) :
    ws.payloadLengthFailure options cursor =
      decoder.lengthViolation options head cursor.bodyRemain := by
  unfold Connection.payloadLengthFailure Decoder.lengthViolation
  rcases atLength with ⟨inMessage, state, supported⟩ | ⟨isControl, -, state⟩
  · rw [state, inMessage.isData, if_pos rfl, if_neg supported, inMessage.buffer, List.append_nil]
  · simp only [isData_of_isControl isControl, Bool.false_eq_true, if_false, state]
    rcases opcode_of_isControl isControl with opcode | opcode | opcode <;> rw [opcode] <;>
      simp [controlState]

theorem length_le_of_control {options : ConnectedOptions} {head : FrameHead} {length : Nat}
    (isControl : head.isControl = true)
    (valid : decoder.lengthViolation options head length = none) : length ≤ maxControlPayload := by
  unfold Decoder.lengthViolation at valid
  rw [isData_of_isControl isControl, if_neg (by decide)] at valid
  split at valid
  · cases valid
  · omega

theorem expectMaskKey_eq (ws : Connection Inflater) {payloadState next : ReceiveState}
    (follows : (next = .needBody ∧ payloadState = .maskedBody) ∨
      ∃ opcode, next = controlState opcode ∧ payloadState = controlState opcode) :
    ws.expectMaskKey next =
      ({ ws with unmask := { key := FixedArray.fill _ 0, keyLen := 0, payloadState } },
        .maskKey) := by
  rcases follows with ⟨rfl, rfl⟩ | ⟨opcode, rfl, rfl⟩
  · rfl
  · cases opcode <;> rfl

theorem validatePayloadLength_cases (codecs : Codecs Inflater) (live : Live ws decoder)
    {head : FrameHead} (clean : Clean ws) (role : head.masked = options.isServer)
    (atLength : AtLength ws cursor decoder head) :
    (∃ failure, decoder.lengthViolation options head cursor.bodyRemain = some failure ∧
        ws.validatePayloadLength options cursor = ws.recvFailed options cursor failure) ∨
      (decoder.lengthViolation options head cursor.bodyRemain = none ∧
        ∃ after state position,
          ws.validatePayloadLength options cursor =
              { step := .goOn, connection := after, cursor := { cursor with state := state } } ∧
            Tracks options after { cursor with state := state } decoder position ∧
            after.dispatched = ws.dispatched ∧ state.rank ≤ 2 ∧ state ≠ .needHeader ∧
            ∀ bytes, position.events codecs options decoder bytes =
              decoder.proceed codecs options (Decoder.readKey head cursor.bodyRemain bytes)) := by
  unfold Connection.validatePayloadLength
  rw [payloadLengthFailure_eq options atLength]
  cases valid : decoder.lengthViolation options head cursor.bodyRemain with
  | some failure => exact Or.inl ⟨failure, rfl, rfl⟩
  | none =>
      refine Or.inr ⟨rfl, ?_⟩
      dsimp only
      cases isServer : options.isServer with
      | true =>
          rw [isServer] at role
          rw [if_pos rfl]
          rcases atLength with ⟨inMessage, state, -⟩ | ⟨isControl, pending, state⟩
          · rw [state, expectMaskKey_eq ws (Or.inl ⟨rfl, rfl⟩)]
            refine ⟨_, _, .key head cursor.bodyRemain [], rfl,
              ⟨⟨live.attached, live.isOpen, live.deflate⟩, ?_⟩, rfl, le_refl _, by simp,
              fun _ => rfl⟩
            exact .key head cursor.bodyRemain []
              ⟨clean.fragment, clean.lengthBytes, clean.control⟩ isServer role rfl rfl rfl rfl
              (by decide) (Or.inl ⟨{ inMessage with }, rfl⟩)
          · rw [state, expectMaskKey_eq ws (Or.inr ⟨head.opcode, rfl, rfl⟩)]
            refine ⟨_, _, .key head cursor.bodyRemain [], rfl,
              ⟨⟨live.attached, live.isOpen, live.deflate⟩, ?_⟩, rfl, le_refl _, by simp,
              fun _ => rfl⟩
            exact .key head cursor.bodyRemain []
              ⟨clean.fragment, clean.lengthBytes, clean.control⟩ isServer role rfl rfl rfl rfl
              (by decide)
              (Or.inr ⟨⟨isControl, length_le_of_control isControl valid, pending⟩, rfl⟩)
      | false =>
          rw [isServer] at role
          rw [if_neg (by decide)]
          refine ⟨ws, cursor.state, .payload head cursor.bodyRemain none [], rfl, ⟨live, ?_⟩, rfl,
            ?_, ?_, ?_⟩
          · rcases atLength with ⟨inMessage, state, -⟩ | ⟨isControl, pending, state⟩
            · exact .body head cursor.bodyRemain [] clean isServer state rfl inMessage
            · exact .control head cursor.bodyRemain none [] clean.fragment clean.lengthBytes state
                isServer.symm (by simp) (Or.inl ⟨clean.control, rfl, rfl⟩)
                ⟨isControl, length_le_of_control isControl valid, pending⟩
          · rcases atLength with ⟨-, state, -⟩ | ⟨-, -, state⟩
            · rw [state]
              decide
            · rw [state, controlState_rank]
              decide
          · rcases atLength with ⟨-, state, -⟩ | ⟨-, -, state⟩
            · rw [state]
              decide
            · rw [state]
              exact controlState_ne_needHeader _
          · intro bytes
            simp only [Position.events, List.nil_append, Option.map_none]
            rw [Decoder.readKey, if_neg (by rw [role]; decide)]

theorem lengthBytes_cases {head : FrameHead} (isData : head.isData = true)
    (extended : 0 < head.lengthBytes) :
    (head.lengthBytes = 2 ∧ head.shortLength ≠ 127) ∨
      (head.lengthBytes = 8 ∧ head.shortLength = 127) := by
  unfold FrameHead.lengthBytes at extended ⊢
  rw [if_pos isData] at extended ⊢
  split
  · rename_i isShort
    exact Or.inl ⟨rfl, by omega⟩
  · split
    · rename_i isLong
      exact Or.inr ⟨rfl, isLong⟩
    · rename_i notShort notLong
      rw [if_neg notShort, if_neg notLong] at extended
      omega

theorem lengthBytes_value {head : FrameHead} (isData : head.isData = true)
    (extended : 0 < head.lengthBytes) (bytes : FixedArray UInt8 8) :
    (if head.lengthBytes = 8 then BigEndian.ofBytes bytes.items
      else BigEndian.ofBytes (bytes.items.take 2)) =
      BigEndian.ofBytes (bytes.items.take head.lengthBytes) := by
  rcases lengthBytes_cases isData extended with ⟨width, -⟩ | ⟨width, -⟩
  · rw [width, if_neg (by decide)]
  · rw [width, if_pos rfl, bytes.take_size]

theorem recvExtendedPayloadLength_advances (codecs : Codecs Inflater) (live : Live ws decoder)
    {head : FrameHead} {got : List UInt8} (fragment : ws.headerFragment = none)
    (control : ws.controlFrameStarted = false) (role : head.masked = options.isServer)
    (gotLength : ws.payloadLengthFrameLen = got.length)
    (gotBytes : ws.payloadLengthFrameBytes.items.take got.length = got)
    (short : got.length < head.lengthBytes) (rank : cursor.state.rank = 3)
    (state : cursor.state =
      if head.lengthBytes = 2 then .extendedPayloadLength16 else .extendedPayloadLength64)
    (inMessage : InMessage ws cursor decoder head []) :
    ∃ received, ws.recvExtendedPayloadLength options cursor head.lengthBytes = some received ∧
      Advances codecs options ws cursor
        (fun more => (Position.length head got).events codecs options decoder
          (cursor.data ++ more)) received := by
  have extended : 0 < head.lengthBytes := by omega
  have widthLe : head.lengthBytes ≤ 8 := by
    rcases lengthBytes_cases inMessage.isData extended with ⟨width, -⟩ | ⟨width, -⟩ <;> omega
  unfold Connection.recvExtendedPayloadLength
  cases dataEq : cursor.data with
  | nil =>
      rw [if_pos List.isEmpty_nil]
      refine ⟨_, rfl, ?_⟩
      refine .waits [] decoder (.length head got) rfl (List.append_nil _).symm ⟨live, ?_⟩ ?_
        fun more => rfl
      · exact .length head got fragment control role gotLength gotBytes short state inMessage
      · rw [Position.events, List.append_nil, Decoder.readLength, if_pos short]
        rfl
  | cons byte rest =>
      rw [if_neg (by simp), gotLength, if_neg (by omega), ← dataEq]
      dsimp only
      generalize countEq : min (head.lengthBytes - got.length) cursor.data.length = count
      have takeLength : (cursor.data.take count).length = count :=
        List.length_take_of_le (by omega)
      obtain ⟨bytes, written, front⟩ := ws.payloadLengthFrameBytes.copyFromSlice_of_fits got.length
        (cursor.data.take count) (by rw [takeLength]; omega)
      rw [takeLength, gotBytes] at front
      rw [written]
      dsimp only
      by_cases incomplete : got.length + count < head.lengthBytes
      · rw [if_pos incomplete]
        have allTaken : count = cursor.data.length := by omega
        rw [allTaken, List.take_length] at front
        rw [allTaken]
        refine ⟨_, rfl, ?_⟩
        refine .waits [] decoder (.length head (got ++ cursor.data)) rfl
          (List.append_nil _).symm ⟨⟨live.attached, live.isOpen, live.deflate⟩, ?_⟩ ?_ ?_
        · refine .length head (got ++ cursor.data) fragment control role ?_ ?_ ?_ state
            { inMessage with }
          · rw [List.length_append]
          · rw [List.length_append]
            exact front
          · rw [List.length_append]
            omega
        · rw [Position.events, List.append_nil, Decoder.readLength,
            if_pos (by rw [List.length_append]; omega)]
          rfl
        · intro more
          simp only [Position.events, List.append_assoc, List.nil_append]
      · rw [if_neg incomplete, lengthBytes_value inMessage.isData extended]
        have countWhole : got.length + count = head.lengthBytes := by omega
        rw [countWhole] at front
        rw [front]
        generalize lengthEq : BigEndian.ofBytes (got ++ cursor.data.take count) = length
        have readEq : ∀ more,
            (Position.length head got).events codecs options decoder (cursor.data ++ more) =
              decoder.proceed codecs options
                ((decoder.lengthViolation options head length).elim
                  (Decoder.readKey head length (cursor.data.drop count ++ more)) .violation) := by
          intro more
          have enough : count ≤ cursor.data.length := by omega
          have valueEq : Decoder.lengthOf head (got ++ (cursor.data ++ more)) = length := by
            rw [Decoder.lengthOf, if_neg (by omega), ← countWhole, List.take_length_add_append,
              List.take_append_of_le_length enough]
            exact lengthEq
          rewrite [Position.events, Decoder.readLength, valueEq,
            if_neg (by simp only [List.length_append]; omega), ← countWhole,
            List.drop_length_add_append, List.drop_append_of_le_length enough]
          cases decoder.lengthViolation options head length with
          | none => rfl
          | some failure => rfl
        by_cases unsupported : head.lengthBytes = 8 ∧ length > maxPayloadLengthLimit
        · rw [if_pos unsupported]
          refine ⟨_, rfl, advances_failed live.attached rfl ?_⟩
          intro more
          have isLong : head.shortLength = 127 := by
            rcases lengthBytes_cases inMessage.isData extended with ⟨width, -⟩ | ⟨-, isLong⟩
            · omega
            · exact isLong
          rw [readEq, Decoder.lengthViolation, if_pos inMessage.isData,
            if_pos ⟨isLong, unsupported.2⟩]
          rfl
        · rw [if_neg unsupported]
          refine ⟨_, rfl, ?_⟩
          generalize afterEq : ({ ws with
            payloadLengthFrameBytes := bytes, payloadLengthFrameLen := 0 } :
              Connection Inflater) = after
          generalize nextEq : ({ cursor with
            data := cursor.data.drop count, bodyRemain := length, state := .needBody } :
              RecvCursor) = next
          have atLength : AtLength after next decoder head := by
            rw [← afterEq, ← nextEq]
            refine Or.inl ⟨{ inMessage with }, rfl, ?_⟩
            rintro ⟨isLong, tooLong⟩
            rcases lengthBytes_cases inMessage.isData extended with ⟨-, notLong⟩ | ⟨width, -⟩
            · exact notLong isLong
            · exact unsupported ⟨width, tooLong⟩
          have liveAfter : Live after decoder := by
            rw [← afterEq]
            exact ⟨live.attached, live.isOpen, live.deflate⟩
          have cleanAfter : Clean after := by
            rw [← afterEq]
            exact ⟨fragment, rfl, control⟩
          have sameLog : after.dispatched = ws.dispatched := by rw [← afterEq]
          have remainEq : next.bodyRemain = length := by rw [← nextEq]
          have dataAfter : next.data = cursor.data.drop count := by rw [← nextEq]
          rcases validatePayloadLength_cases codecs liveAfter cleanAfter role atLength with
            ⟨failure, violated, validatedEq⟩ |
              ⟨valid, connection, nextState, position, validatedEq, tracks, log, rankLe, notHeader,
                events⟩
          · rw [validatedEq]
            refine advances_failed liveAfter.attached sameLog ?_
            intro more
            rw [readEq, ← remainEq, violated]
            rfl
          · rw [validatedEq]
            refine .moves [] decoder position rfl ?_ tracks
              (fun isHeader => absurd isHeader notHeader) ?_ ?_
            · rw [List.append_nil]
              exact log.trans sameLog
            · rw [RecvCursor.weight, RecvCursor.weight, rank, dataAfter, List.length_drop]
              change _ + nextState.rank < _
              omega
            · intro more
              rw [readEq, ← remainEq, valid, dataAfter, events]
              rfl

end Bun.WebSocket
