/-
What consuming a payload reports: the whole message, delivered as the decoder delivers
it, or nothing while the message is not complete.
-/

import Bun.WebSocket.Decoding

set_option autoImplicit false

namespace Bun.WebSocket

open Bun.Foundation

variable {Inflater : Type}

namespace Connection

theorem finish_closed {ws : Connection Inflater} (attached : ws.attached = true)
    (failure : Failure) :
    (ws.finish failure).receiveState = .closed ∧
      (ws.finish failure).dispatched = ws.dispatched ++ [.failed failure] := by
  rw [finish, attached]
  exact ⟨rfl, rfl⟩

theorem fail_closed {ws : Connection Inflater} (attached : ws.attached = true)
    (options : ConnectedOptions) (failure : Failure) :
    (ws.fail options failure).receiveState = .closed ∧
      (ws.fail options failure).dispatched = ws.dispatched ++ [.failed failure] := by
  rw [fail, attached]
  cases failure.code.closeCode with
  | none => exact finish_closed attached failure
  | some code =>
      cases options.wsMode with
      | false => exact finish_closed attached failure
      | true => exact ⟨rfl, rfl⟩

def IsDispatched (kind : Opcode) : Prop :=
  kind = .text ∨ kind = .binary ∨ kind = .ping ∨ kind = .pong

theorem dispatchData_eq {ws : Connection Inflater} (attached : ws.attached = true)
    (codecs : Codecs Inflater) (options : ConnectedOptions) (data : List UInt8) {kind : Opcode}
    (dispatched : IsDispatched kind) :
    ws.dispatchData codecs options data kind =
      if kind == .text && options.checksText && !codecs.isValidUtf8 data then
        ws.fail options { code := .invalidUtf8 }
      else ws.emit (.received kind data) := by
  unfold dispatchData
  rw [attached]
  rcases dispatched with rfl | rfl | rfl | rfl
  · cases wsMode : options.wsMode <;> simp [ConnectedOptions.checksText, wsMode]
  all_goals rfl

/-- A connection after a message: a report of the decoder, an end, or an empty receive
buffer for the next message. -/
structure Delivered (ws after : Connection Inflater)
    (handled : List Event × Option (Decoder Inflater)) : Prop where
  log : after.dispatched = ws.dispatched ++ handled.1
  closes : handled.2 = none → after.receiveState = .closed
  resets : ∀ next, handled.2 = some next →
    next.pending = none ∧
      ∃ bodyRemain receivingCompressed messageIsCompressed,
        after =
          { ws with
            dispatched := ws.dispatched ++ handled.1
            deflate := next.deflate
            receiveBuffer := []
            receiveBodyRemain := bodyRemain
            receivingCompressed := receivingCompressed
            messageIsCompressed := messageIsCompressed }

/-- What is put back after a message was dispatched does not change what was reported. -/
theorem Delivered.reset {ws after : Connection Inflater}
    {handled : List Event × Option (Decoder Inflater)} (delivered : Delivered ws after handled)
    (buffer : List UInt8) (bodyRemain : Nat) (receivingCompressed messageIsCompressed : Bool)
    (empty : buffer = [] ∨ buffer = after.receiveBuffer) :
    Delivered ws
      { after with
        receiveBuffer := buffer
        receiveBodyRemain := bodyRemain
        receivingCompressed := receivingCompressed
        messageIsCompressed := messageIsCompressed } handled where
  log := delivered.log
  closes := delivered.closes
  resets := by
    intro next isNext
    obtain ⟨noPending, oldRemain, oldReceiving, oldMessage, afterEq⟩ :=
      delivered.resets next isNext
    have isEmpty : buffer = [] := by
      rcases empty with isEmpty | same
      · exact isEmpty
      · rw [same, afterEq]
    refine ⟨noPending, bodyRemain, receivingCompressed, messageIsCompressed, ?_⟩
    rw [isEmpty, afterEq]

theorem delivered_failed (ws : Connection Inflater) (attached : ws.attached = true)
    (options : ConnectedOptions) (failure : Failure) :
    Delivered ws (ws.fail options failure) ([.failed failure], none) where
  log := (fail_closed attached options failure).2
  closes := fun _ => (fail_closed attached options failure).1
  resets := nofun

def IsMessageKind (kind : Opcode) : Prop :=
  kind = .text ∨ kind = .binary

theorem IsMessageKind.isDispatched {kind : Opcode} (message : IsMessageKind kind) :
    IsDispatched kind := by
  rcases message with rfl | rfl
  · exact Or.inl rfl
  · exact Or.inr (Or.inl rfl)

theorem dispatchData_delivered (ws : Connection Inflater) (attached : ws.attached = true)
    (codecs : Codecs Inflater) (options : ConnectedOptions) (data : List UInt8) {kind : Opcode}
    (dispatched : IsDispatched kind) (empty : ws.receiveBuffer = []) (decoder : Decoder Inflater)
    (noPending : decoder.pending = none) (sameDeflate : ws.deflate = decoder.deflate) :
    Delivered ws (ws.dispatchData codecs options data kind)
      (decoder.deliverData codecs options kind data) := by
  rw [dispatchData_eq attached codecs options data dispatched, Decoder.deliverData]
  split
  · exact delivered_failed ws attached options _
  · refine ⟨rfl, nofun, ?_⟩
    rintro next ⟨⟩
    refine ⟨noPending, ws.receiveBodyRemain, ws.receivingCompressed, ws.messageIsCompressed, ?_⟩
    rw [← sameDeflate, ← empty]
    rfl

theorem dispatchCompressedData_delivered (ws : Connection Inflater)
    (attached : ws.attached = true) (codecs : Codecs Inflater) (options : ConnectedOptions)
    (data : List UInt8) {kind : Opcode} (isMessage : IsMessageKind kind)
    (empty : ws.receiveBuffer = []) (decoder : Decoder Inflater)
    (sameDeflate : ws.deflate = decoder.deflate) :
    Delivered ws (ws.dispatchCompressedData codecs options data kind)
      (decoder.deliver codecs options { opcode := kind, compressed := true, payload := data }) := by
  unfold dispatchCompressedData Decoder.deliver
  rw [sameDeflate]
  cases decoder.deflate with
  | none => exact delivered_failed ws attached options _
  | some deflate =>
      simp only [if_pos]
      cases codecs.decompress deflate data options.maxLength with
      | mk window result =>
          cases result with
          | error error =>
              have failed := delivered_failed
                { ws with deflate := some window } attached options
                { code := error.toErrorCode }
              refine ⟨failed.log, failed.closes, ?_⟩
              intro next isNext
              cases isNext
          | ok decompressed =>
              have delivered := dispatchData_delivered
                { ws with deflate := some window } attached codecs options decompressed
                isMessage.isDispatched empty
                { pending := none, deflate := some window } rfl rfl
              refine ⟨delivered.log, delivered.closes, ?_⟩
              intro next isNext
              obtain ⟨noPending, remain, receiving, message, afterEq⟩ :=
                delivered.resets next isNext
              exact ⟨noPending, remain, receiving, message, afterEq⟩

theorem dispatchBufferedMessage_delivered (ws : Connection Inflater)
    (attached : ws.attached = true) (codecs : Codecs Inflater) (options : ConnectedOptions)
    {kind : Opcode} (isMessage : IsMessageKind kind) (compressed : Bool)
    (decoder : Decoder Inflater) (sameDeflate : ws.deflate = decoder.deflate) :
    Delivered ws (ws.dispatchBufferedMessage codecs options kind compressed)
      (decoder.deliver codecs options
        { opcode := kind, compressed := compressed, payload := ws.receiveBuffer }) := by
  have emptied : ∀ after handled,
      Delivered { ws with receiveBuffer := [] } after handled → Delivered ws after handled := by
    intro after handled delivered
    exact ⟨delivered.log, delivered.closes, delivered.resets⟩
  cases compressed with
  | true =>
      have delivered := dispatchCompressedData_delivered
        { ws with receiveBuffer := [] } attached codecs options ws.receiveBuffer isMessage
        rfl decoder sameDeflate
      exact emptied _ _ (delivered.reset [] 0 false false (Or.inl rfl))
  | false =>
      have delivered := dispatchData_delivered
        { ws with receiveBuffer := [] } attached codecs options ws.receiveBuffer
        isMessage.isDispatched rfl { decoder with pending := none } rfl sameDeflate
      exact emptied _ _ (delivered.reset [] 0 _ false (Or.inl rfl))

/-! ### Consuming -/

theorem bufferPayload_of_isEmpty (ws : Connection Inflater) (data : List UInt8) :
    (if data.isEmpty then ws else ws.bufferPayload data) = ws.bufferPayload data := by
  cases data with
  | nil =>
      unfold bufferPayload
      rw [if_pos List.isEmpty_nil, List.append_nil]
  | cons byte rest => rfl

theorem consume_delivered (ws : Connection Inflater) (attached : ws.attached = true)
    (codecs : Codecs Inflater) (options : ConnectedOptions) (data : List UInt8) (kind : Opcode)
    (isMessage : IsMessageKind kind) (decoder : Decoder Inflater)
    (sameDeflate : ws.deflate = decoder.deflate) :
    (ws.consume codecs options data data.length kind true).2 = data.length ∧
      Delivered ws (ws.consume codecs options data data.length kind true).1
        (decoder.deliver codecs options
          { opcode := kind
            compressed := ws.receivingCompressed
            payload := ws.receiveBuffer ++ data }) := by
  have buffered : ∀ compressed,
      Delivered ws
        (dispatchBufferedMessage
          { ws with receiveBuffer := ws.receiveBuffer ++ data, receiveBodyRemain := 0 }
          codecs options kind compressed)
        (decoder.deliver codecs options
          { opcode := kind, compressed := compressed, payload := ws.receiveBuffer ++ data }) := by
    intro compressed
    have delivered := dispatchBufferedMessage_delivered
      { ws with receiveBuffer := ws.receiveBuffer ++ data, receiveBodyRemain := 0 }
      attached codecs options isMessage compressed decoder sameDeflate
    exact ⟨delivered.log, delivered.closes, delivered.resets⟩
  unfold consume
  cases compressed : ws.receivingCompressed with
  | true =>
      rw [if_pos rfl, consumeCompressed, bufferPayload_of_isEmpty, if_pos rfl, if_pos rfl]
      exact ⟨rfl, buffered true⟩
  | false =>
      rw [if_neg (by decide)]
      simp only [decide_true, Bool.and_true, Bool.true_and]
      cases empty : ws.receiveBuffer with
      | nil =>
          rw [if_pos (by decide)]
          have delivered := dispatchData_delivered ws attached codecs options data
            isMessage.isDispatched empty { decoder with pending := none } rfl sameDeflate
          refine ⟨rfl, delivered.log, delivered.closes, ?_⟩
          intro next isNext
          obtain ⟨noPending, remain, receiving, message, afterEq⟩ := delivered.resets next isNext
          refine ⟨noPending, remain, receiving, false, ?_⟩
          rw [afterEq]
          rfl
      | cons first front =>
          rw [if_neg (by simp)]
          cases data with
          | nil =>
              rw [if_pos (by decide), List.append_nil, ← empty]
              exact ⟨rfl, dispatchBufferedMessage_delivered ws attached codecs options isMessage
                false decoder sameDeflate⟩
          | cons byte rest =>
              rw [if_neg (by simp), if_neg (by simp), ← empty]
              exact ⟨rfl, buffered false⟩

theorem consume_buffered (ws : Connection Inflater) (codecs : Codecs Inflater)
    (options : ConnectedOptions) (data : List UInt8) (leftInFragment : Nat) (kind : Opcode)
    (isFinal : Bool) (incomplete : ¬(isFinal = true ∧ data.length = leftInFragment)) :
    ∃ remain, ws.consume codecs options data leftInFragment kind isFinal =
      ({ ws with receiveBuffer := ws.receiveBuffer ++ data, receiveBodyRemain := remain },
        data.length) := by
  have notBoth : (isFinal && decide (data.length = leftInFragment)) = false := by
    rw [Bool.and_eq_false_iff]
    cases isFinal with
    | false => exact Or.inl rfl
    | true => exact Or.inr (decide_eq_false fun whole => incomplete ⟨rfl, whole⟩)
  have notFinal (whole : data.length = leftInFragment) : isFinal = false := by
    cases isFinal with
    | false => rfl
    | true => exact absurd ⟨rfl, whole⟩ incomplete
  unfold consume
  by_cases compressed : ws.receivingCompressed = true
  · rw [if_pos compressed, consumeCompressed, bufferPayload_of_isEmpty]
    by_cases whole : data.length = leftInFragment
    · rw [if_pos whole, notFinal whole, if_neg (by decide)]
      exact ⟨0, rfl⟩
    · rw [if_neg whole]
      exact ⟨ws.receiveBodyRemain, rfl⟩
  · rw [if_neg compressed]
    simp only [notBoth, Bool.false_and, Bool.false_eq_true, if_false]
    cases data with
    | nil =>
        refine ⟨ws.receiveBodyRemain, ?_⟩
        rw [if_pos List.isEmpty_nil, List.append_nil]
        rfl
    | cons byte rest =>
        rw [if_neg (by simp)]
        by_cases whole : (byte :: rest).length = leftInFragment
        · rw [if_pos (decide_eq_true whole), notFinal whole, if_neg (by decide)]
          exact ⟨0, rfl⟩
        · rw [if_neg (by simpa using whole)]
          exact ⟨ws.receiveBodyRemain, rfl⟩

end Connection

end Bun.WebSocket
