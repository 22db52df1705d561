/-
The receiver against the decoder of the whole stream.

Between two steps of the frame loop the cells of a connection hold a position in the
frame that is being read: the bytes of it that were taken, in the form in which the
cells keep them.  A step reports what the decoder reports on the bytes it takes, and
leaves a position behind them.
-/

import Bun.WebSocket.Dispatching

set_option autoImplicit false

namespace Bun.WebSocket

open Bun.Foundation

variable {Inflater : Type}

/-- How far a frame was read: the bytes of the part that is not complete. -/
inductive Position
  | boundary (fragment : Option UInt8)
  | length (head : FrameHead) (got : List UInt8)
  | key (head : FrameHead) (length : Nat) (got : List UInt8)
  | payload (head : FrameHead) (length : Nat) (key : Option (FixedArray UInt8 4))
      (got : List UInt8)

def Position.events (codecs : Codecs Inflater) (options : ConnectedOptions)
    (decoder : Decoder Inflater) : Position → List UInt8 → List Event
  | .boundary fragment, bytes =>
      Decoder.decode codecs options decoder (fragment.toList ++ bytes)
  | .length head got, bytes =>
      decoder.proceed codecs options (decoder.readLength options head (got ++ bytes))
  | .key head size got, bytes =>
      decoder.proceed codecs options (Decoder.readKey head size (got ++ bytes))
  | .payload head size mask got, bytes =>
      decoder.proceed codecs options
        (Decoder.readPayload head size (mask.map FixedArray.items) (got ++ bytes))

/-! ### The cells at a position -/

/-- The cells of the message that is not complete, while no data frame is being read. -/
def KeepsPending (ws : Connection Inflater) (cursor : RecvCursor) (decoder : Decoder Inflater) :
    Prop :=
  match decoder.pending with
  | none => ws.receivingIsFinal = true ∧ ws.receiveBuffer = []
  | some message =>
      ws.receivingIsFinal = false ∧ ws.receiveBuffer = message.payload ∧
        cursor.lastDataType = message.opcode ∧ ws.messageIsCompressed = message.compressed ∧
        Connection.IsMessageKind message.opcode

/-- The cells while a data frame is read of which `taken` is unmasked. -/
structure InMessage (ws : Connection Inflater) (cursor : RecvCursor)
    (decoder : Decoder Inflater) (head : FrameHead) (taken : List UInt8) : Prop where
  isData : head.isData = true
  isMessage : Connection.IsMessageKind (decoder.growing head).opcode
  final : ws.receivingIsFinal = head.fin
  cursorFinal : cursor.isFinal = head.fin
  buffer : ws.receiveBuffer = (decoder.growing head).payload ++ taken
  kind : cursor.lastDataType = (decoder.growing head).opcode
  compressed : ws.receivingCompressed = (decoder.growing head).compressed
  messageCompressed : ws.messageIsCompressed = (decoder.growing head).compressed

structure InControl (ws : Connection Inflater) (cursor : RecvCursor)
    (decoder : Decoder Inflater) (head : FrameHead) (length : Nat) : Prop where
  isControl : head.isControl = true
  short : length ≤ maxControlPayload
  pending : KeepsPending ws cursor decoder

def controlState (opcode : Opcode) : ReceiveState :=
  match opcode with
  | .ping => .ping
  | .pong => .pong
  | _ => .close

def HoldsControl (ws : Connection Inflater) (cursor : RecvCursor) (length : Nat)
    (got : List UInt8) : Prop :=
  (ws.controlFrameStarted = false ∧ got = [] ∧ cursor.bodyRemain = length) ∨
    (ws.controlFrameStarted = true ∧ ws.controlPayloadLen = length ∧
      cursor.bodyRemain = got.length ∧ ws.controlPayload.items.take got.length = got ∧
      got.length < length)

/-- The cells that are empty at every position but their own. -/
structure Clean (ws : Connection Inflater) : Prop where
  fragment : ws.headerFragment = none
  lengthBytes : ws.payloadLengthFrameLen = 0
  control : ws.controlFrameStarted = false

inductive Holds (options : ConnectedOptions) (ws : Connection Inflater) (cursor : RecvCursor)
    (decoder : Decoder Inflater) : Position → Prop
  | boundary (fragment : Option UInt8) (isFragment : ws.headerFragment = fragment)
      (lengthBytes : ws.payloadLengthFrameLen = 0) (control : ws.controlFrameStarted = false)
      (state : cursor.state = .needHeader) (pending : KeepsPending ws cursor decoder) :
      Holds options ws cursor decoder (.boundary fragment)
  | length (head : FrameHead) (got : List UInt8) (fragment : ws.headerFragment = none)
      (control : ws.controlFrameStarted = false)
      (role : head.masked = options.isServer)
      (gotLength : ws.payloadLengthFrameLen = got.length)
      (gotBytes : ws.payloadLengthFrameBytes.items.take got.length = got)
      (short : got.length < head.lengthBytes)
      (state : cursor.state =
        if head.lengthBytes = 2 then .extendedPayloadLength16 else .extendedPayloadLength64)
      (inMessage : InMessage ws cursor decoder head []) :
      Holds options ws cursor decoder (.length head got)
  | key (head : FrameHead) (length : Nat) (got : List UInt8) (clean : Clean ws)
      (role : options.isServer = true) (masked : head.masked = true)
      (state : cursor.state = .maskKey) (remain : cursor.bodyRemain = length)
      (gotLength : ws.unmask.keyLen = got.length)
      (gotBytes : ws.unmask.key.items.take got.length = got) (short : got.length < 4)
      (inFrame :
        InMessage ws cursor decoder head [] ∧ ws.unmask.payloadState = .maskedBody ∨
          InControl ws cursor decoder head length ∧
            ws.unmask.payloadState = controlState head.opcode) :
      Holds options ws cursor decoder (.key head length got)
  | body (head : FrameHead) (length : Nat) (got : List UInt8) (clean : Clean ws)
      (role : options.isServer = false) (state : cursor.state = .needBody)
      (remain : cursor.bodyRemain + got.length = length)
      (inMessage : InMessage ws cursor decoder head got) :
      Holds options ws cursor decoder (.payload head length none got)
  | maskedBody (head : FrameHead) (length : Nat) (key : FixedArray UInt8 4) (got : List UInt8)
      (clean : Clean ws) (state : cursor.state = .maskedBody)
      (remain : cursor.bodyRemain + got.length = length)
      (rotated : ws.unmask.key = key.rotateLeft got.length)
      (inMessage : InMessage ws cursor decoder head (unmasked key.items got)) :
      Holds options ws cursor decoder (.payload head length (some key) got)
  | control (head : FrameHead) (length : Nat) (key : Option (FixedArray UInt8 4))
      (got : List UInt8) (fragment : ws.headerFragment = none)
      (lengthBytes : ws.payloadLengthFrameLen = 0)
      (state : cursor.state = controlState head.opcode)
      (role : key.isSome = options.isServer) (hasKey : ∀ bytes ∈ key, ws.unmask.key = bytes)
      (holds : HoldsControl ws cursor length got)
      (inControl : InControl ws cursor decoder head length) :
      Holds options ws cursor decoder (.payload head length key got)

structure Live (ws : Connection Inflater) (decoder : Decoder Inflater) : Prop where
  attached : ws.attached = true
  isOpen : ws.receiveState ≠ .closed
  deflate : ws.deflate = decoder.deflate

structure Tracks (options : ConnectedOptions) (ws : Connection Inflater) (cursor : RecvCursor)
    (decoder : Decoder Inflater) (position : Position) : Prop where
  live : Live ws decoder
  holds : Holds options ws cursor decoder position

/-! ### Progress of the loop -/

/-- The parts of a frame that can follow without a byte being taken. -/
def ReceiveState.rank : ReceiveState → Nat
  | needHeader => 0
  | needBody => 1
  | ping => 1
  | pong => 1
  | close => 1
  | maskedBody => 1
  | maskKey => 2
  | extendedPayloadLength16 => 3
  | extendedPayloadLength64 => 3
  | closed => 0

def RecvCursor.weight (cursor : RecvCursor) : Nat :=
  4 * cursor.data.length + cursor.state.rank

theorem ReceiveState.rank_le (state : ReceiveState) : state.rank ≤ 3 := by
  cases state <;> decide

theorem controlState_rank (opcode : Opcode) : (controlState opcode).rank = 1 := by
  cases opcode <;> rfl

/-- A step from a position: it ends the connection, waits for the next read at a
position where the frame is not complete, or moves on. -/
inductive Advances (codecs : Codecs Inflater) (options : ConnectedOptions)
    (ws : Connection Inflater) (cursor : RecvCursor) (before : List UInt8 → List Event)
    (received : Received Inflater) : Prop
  | ends (events : List Event) (closed : received.connection.receiveState = .closed)
      (log : received.connection.dispatched = ws.dispatched ++ events)
      (same : ∀ more, before more = events)
  | waits (events : List Event) (decoder : Decoder Inflater) (position : Position)
      (step : received.step = .needMoreData)
      (log : received.connection.dispatched = ws.dispatched ++ events)
      (tracks : Tracks options received.connection received.cursor decoder position)
      (short : position.events codecs options decoder [] = [])
      (same : ∀ more, before more = events ++ position.events codecs options decoder more)
  | moves (events : List Event) (decoder : Decoder Inflater) (position : Position)
      (step : received.step = .goOn)
      (log : received.connection.dispatched = ws.dispatched ++ events)
      (tracks : Tracks options received.connection received.cursor decoder position)
      (starts : received.cursor.state = .needHeader → received.cursor.data ≠ [])
      (lighter : received.cursor.weight < cursor.weight)
      (same : ∀ more,
        before more =
          events ++ position.events codecs options decoder (received.cursor.data ++ more))

theorem advances_failed {codecs : Codecs Inflater} {options : ConnectedOptions}
    {ws failing : Connection Inflater} {cursor after : RecvCursor}
    {before : List UInt8 → List Event} {failure : Failure} (attached : failing.attached = true)
    (log : failing.dispatched = ws.dispatched) (same : ∀ more, before more = [.failed failure]) :
    Advances codecs options ws cursor before (failing.recvFailed options after failure) := by
  obtain ⟨closed, reported⟩ := Connection.fail_closed attached options failure
  refine .ends [.failed failure] closed ?_ same
  rw [← log]
  exact reported

theorem decode_nil (codecs : Codecs Inflater) (options : ConnectedOptions)
    (decoder : Decoder Inflater) : Decoder.decode codecs options decoder [] = [] := by
  rw [Decoder.decode_eq_proceed]
  rfl

theorem decode_single (codecs : Codecs Inflater) (options : ConnectedOptions)
    (decoder : Decoder Inflater) (byte : UInt8) :
    Decoder.decode codecs options decoder [byte] = [] := by
  rw [Decoder.decode_eq_proceed]
  rfl

/-- At the end of a frame the loop waits or goes on with the next header. -/
theorem advances_boundary {codecs : Codecs Inflater} {options : ConnectedOptions}
    {ws : Connection Inflater} {cursor : RecvCursor} {before : List UInt8 → List Event}
    {received : Received Inflater} (handled : List Event × Option (Decoder Inflater))
    (step : received.step = if received.cursor.data.isEmpty then .needMoreData else .goOn)
    (log : received.connection.dispatched = ws.dispatched ++ handled.1)
    (closes : handled.2 = none → received.connection.receiveState = .closed)
    (tracks : ∀ next, handled.2 = some next →
      Tracks options received.connection received.cursor next (.boundary none))
    (state : received.cursor.state = .needHeader)
    (lighter : 4 * received.cursor.data.length < cursor.weight)
    (same : ∀ more,
      before more =
        match handled.2 with
        | none => handled.1
        | some next =>
            handled.1 ++ Decoder.decode codecs options next (received.cursor.data ++ more)) :
    Advances codecs options ws cursor before received := by
  obtain ⟨events, next⟩ := handled
  cases next with
  | none => exact .ends events (closes rfl) log same
  | some next =>
      have lighter : received.cursor.weight < cursor.weight := by
        rw [RecvCursor.weight, state]
        exact lighter
      cases dataEq : received.cursor.data with
      | nil =>
          rw [dataEq] at step same
          exact .waits events next (.boundary none) step log (tracks next rfl)
            (decode_nil codecs options next) same
      | cons byte rest =>
          rw [dataEq] at step
          refine .moves events next (.boundary none) step log (tracks next rfl) ?_ lighter same
          intro _ isNil
          rw [dataEq] at isNil
          cases isNil

/-! ### Reading a payload -/

theorem readPayload_whole (head : FrameHead) (length : Nat) (key : Option (List UInt8))
    (got : List UInt8) (data more : List UInt8) (remain : Nat)
    (whole : remain + got.length = length) (enough : remain ≤ data.length) :
    Decoder.readPayload head length key (got ++ (data ++ more)) =
      .frame head (unmaskedBy key (got ++ data.take remain)) (data.drop remain ++ more) := by
  have notShort : ¬(got ++ (data ++ more)).length < length := by
    simp only [List.length_append]
    omega
  have lengthEq : length = got.length + remain := by omega
  rw [Decoder.readPayload, if_neg notShort, lengthEq, List.take_length_add_append,
    List.drop_length_add_append, List.take_append_of_le_length enough,
    List.drop_append_of_le_length enough]

theorem readPayload_short (head : FrameHead) (length : Nat) (key : Option (List UInt8))
    (got : List UInt8) (short : got.length < length) :
    Decoder.readPayload head length key got = .short := by
  rw [Decoder.readPayload, if_pos short]

theorem getD_rotateLeft (key : FixedArray UInt8 4) (count index : Nat) :
    (key.rotateLeft count).items.getD (index % 4) 0 = key.items.getD ((index + count) % 4) 0 := by
  have whole := key.length_items
  have inside : index % 4 < (key.items.rotate count).length := by
    rw [List.length_rotate, whole]
    exact Nat.mod_lt _ (by decide)
  change (key.items.rotate count).getD (index % 4) 0 = _
  rw [List.getD_eq_getElem _ _ inside, List.getElem_rotate]
  have inside' : (index + count) % 4 < key.items.length := by
    rw [whole]
    exact Nat.mod_lt _ (by decide)
  rw [List.getD_eq_getElem _ _ inside']
  congr 1
  rw [whole, Nat.mod_add_mod]

/-- Unmasking goes on behind a prefix with the key rotated past it. -/
theorem unmasked_append (key : FixedArray UInt8 4) (got chunk : List UInt8) :
    unmasked key.items (got ++ chunk) =
      unmasked key.items got ++ unmasked (key.rotateLeft got.length).items chunk := by
  unfold unmasked
  rw [List.mapIdx_append]
  congr 1
  congr 1
  funext index byte
  rw [getD_rotateLeft]

/-! ### The end of a data frame -/

theorem receive_data (decoder : Decoder Inflater) (codecs : Codecs Inflater)
    (options : ConnectedOptions) {head : FrameHead} (isData : head.isData = true)
    (payload : List UInt8) :
    decoder.receive codecs options head payload =
      let message :=
        { decoder.growing head with payload := (decoder.growing head).payload ++ payload }
      if head.fin then decoder.deliver codecs options message
      else ([], some { decoder with pending := some message }) := by
  rw [Decoder.receive, if_pos isData]

theorem advances_message {codecs : Codecs Inflater} {options : ConnectedOptions}
    {ws : Connection Inflater} {cursor reading : RecvCursor}
    {before : List UInt8 → List Event} {received : Received Inflater}
    {decoder : Decoder Inflater} {head : FrameHead} {taken : List UInt8}
    (base : Connection Inflater) (payload : List UInt8) (attached : base.attached = true)
    (isOpen : base.receiveState ≠ .closed) (clean : Clean base)
    (inMessage : InMessage base reading decoder head taken) (fin : head.fin = true)
    (sameLog : base.dispatched = ws.dispatched)
    (delivered : Connection.Delivered base received.connection
      (decoder.deliver codecs options
        { decoder.growing head with payload := (decoder.growing head).payload ++ payload }))
    (step : received.step = if received.cursor.data.isEmpty then .needMoreData else .goOn)
    (state : received.cursor.state = .needHeader)
    (lighter : 4 * received.cursor.data.length < cursor.weight)
    (same : ∀ more,
      before more =
        decoder.proceed codecs options (.frame head payload (received.cursor.data ++ more))) :
    Advances codecs options ws cursor before received := by
  have handledEq := receive_data decoder codecs options inMessage.isData payload
  rw [fin] at handledEq
  refine advances_boundary (decoder.receive codecs options head payload) step ?_ ?_ ?_ state
    lighter same
  · rw [handledEq, ← sameLog]
    exact delivered.log
  · rw [handledEq]
    exact delivered.closes
  · rw [handledEq]
    intro next isNext
    obtain ⟨noPending, remain, receiving, message, afterEq⟩ := delivered.resets next isNext
    rw [afterEq]
    refine ⟨⟨attached, isOpen, rfl⟩, ?_⟩
    refine .boundary none clean.fragment clean.lengthBytes clean.control state ?_
    rw [KeepsPending, noPending]
    exact ⟨inMessage.final.trans fin, rfl⟩

theorem advances_fragment {codecs : Codecs Inflater} {options : ConnectedOptions}
    {ws : Connection Inflater} {cursor : RecvCursor} {before : List UInt8 → List Event}
    {received : Received Inflater} (decoder : Decoder Inflater) {head : FrameHead}
    {payload : List UInt8} (live : Live received.connection decoder)
    (clean : Clean received.connection)
    (inMessage : InMessage received.connection received.cursor decoder head payload)
    (fin : head.fin = false) (sameLog : received.connection.dispatched = ws.dispatched)
    (step : received.step = if received.cursor.data.isEmpty then .needMoreData else .goOn)
    (state : received.cursor.state = .needHeader)
    (lighter : 4 * received.cursor.data.length < cursor.weight)
    (same : ∀ more,
      before more =
        decoder.proceed codecs options (.frame head payload (received.cursor.data ++ more))) :
    Advances codecs options ws cursor before received := by
  have handledEq := receive_data decoder codecs options inMessage.isData payload
  rw [fin] at handledEq
  refine advances_boundary (decoder.receive codecs options head payload) step ?_ ?_ ?_ state
    lighter same
  · rw [handledEq, sameLog]
    exact (List.append_nil _).symm
  · rw [handledEq]
    exact nofun
  · rw [handledEq]
    rintro next ⟨⟩
    refine ⟨⟨live.attached, live.isOpen, live.deflate⟩, ?_⟩
    refine .boundary none clean.fragment clean.lengthBytes clean.control state ?_
    exact ⟨inMessage.final.trans fin, inMessage.buffer, inMessage.kind,
      inMessage.messageCompressed, inMessage.isMessage⟩

end Bun.WebSocket
