/-
Outbound requests.

A header block goes out as one HEADERS frame and as many CONTINUATION frames as it needs.
A body goes out in DATA frames under both send windows, and waits when one is used up.
-/

import Bun.Http2.ClientSession

set_option autoImplicit false

namespace Bun.Http2

open Bun.Foundation

namespace Session

variable {σ : Type}

def clientPrefaceSize : ℕ := 24

def prefaceSettingsFrame : Frame where
  kind := .settings
  streamId := 0
  payload :=
    encodeSetting settingsEnablePush 0 ++
      encodeSetting settingsInitialWindowSize localInitialWindowSize ++
      encodeSetting settingsMaxHeaderListSize localMaxHeaderListSize

/-- The preface with its SETTINGS, and a WINDOW_UPDATE that opens the connection window as
far as the window of a stream. -/
def writePreface (session : Session σ) : Session σ :=
  let update := windowUpdateFrame 0 (localInitialWindowSize - defaultWindowSize)
  { session with
    log := session.log ++ [.preface [prefaceSettingsFrame, update]]
    queued := session.queued + clientPrefaceSize + (frameHeaderSize + prefaceSettingsFrame.length) +
      (frameHeaderSize + update.length)
    prefaceSent := true }

/-! ### Header blocks -/

def headerFrame (id : ℕ) (first endStream last : Bool) (chunk : List UInt8) : Frame where
  kind := if first then .headers else .continuation
  flags := (if last then endHeadersFlag else 0) ||| (if first && endStream then endStreamFlag else 0)
  streamId := id
  payload := chunk

/-- The frames of a header block.  The code would not end if `max` were 0. -/
def headerFrames (max id : ℕ) (endStream first : Bool) (remaining : List UInt8) : List Frame :=
  let rest := remaining.drop max
  let last := rest.isEmpty
  if last || max = 0 then [headerFrame id first endStream last (remaining.take max)]
  else
    headerFrame id first endStream false (remaining.take max) ::
      headerFrames max id endStream false rest
termination_by remaining.length
decreasing_by
  rename_i more
  simp only [rest, last, Bool.or_eq_true, List.isEmpty_iff, decide_eq_true_eq, not_or] at more
  have left : max < remaining.length := by simpa using more.1
  rw [List.length_drop]
  omega

def writeHeaderBlock (session : Session σ) (id : ℕ) (block : List UInt8) (endStream : Bool) :
    Session σ :=
  (headerFrames session.remoteMaxFrameSize id endStream true block).foldl writeFrame session

/-! ### Bodies -/

def dataFrame (id : ℕ) (last : Bool) (chunk : List UInt8) : Frame where
  kind := .data
  flags := if last then endStreamFlag else 0
  streamId := id
  payload := chunk

def writeData (session : Session σ) (id : ℕ) (last : Bool) (chunk : List UInt8) : Session σ :=
  let framed := session.writeFrame (dataFrame id last chunk)
  if !fitsI32 chunk.length then { framed with panicked := true }
  else
    { framed.modify id fun stream => { stream with sendWindow := stream.sendWindow - chunk.length } with
      connSendWindow := session.connSendWindow - chunk.length }

/-- Frames `data` as far as the windows, the write buffer and `cap` allow, and returns the
number of bytes that were taken.  The code would not end on an empty chunk that is not the
last one. -/
def writeDataWindowed (session : Session σ) (id : ℕ) (data : List UInt8) (endStream : Bool)
    (cap consumed : ℕ) : ℕ × Session σ :=
  match session.find id with
  | none => (consumed, session)
  | some stream =>
      let window := (max (min stream.sendWindow session.connSendWindow) 0).toNat
      if data ≠ [] ∧ window = 0 then (consumed, session)
      else if data ≠ [] ∧ session.queued ≥ writeBufferHighWater then (consumed, session)
      else if consumed ≥ cap ∧ data ≠ [] then (consumed, session)
      else
        let chunkLen := min (min data.length session.remoteMaxFrameSize) window
        let last := chunkLen = data.length
        let written := session.writeData id (last && endStream) (data.take chunkLen)
        if last ∨ chunkLen = 0 then (consumed + chunkLen, written)
        else
          writeDataWindowed written id (data.drop chunkLen) endStream cap (consumed + chunkLen)
termination_by data.length
decreasing_by
  rename_i more
  rw [List.length_drop]
  simp only [chunkLen, not_or] at more ⊢
  omega

def noCap : ℕ := 18446744073709551615

def drainSendBody (session : Session σ) (id cap : ℕ) : Session σ :=
  match session.find id with
  | none => session
  | some stream =>
      if stream.localClosed || stream.awaitingContinue || stream.fatalError.isSome then session
      else if !stream.hasClient then session
      else
        match stream.body with
        | .bytes pending =>
            let (sent, written) := session.writeDataWindowed id pending true cap 0
            written.modify id fun stream =>
              let stream := { stream with body := .bytes (pending.drop sent) }
              if (pending.drop sent).isEmpty then stream.sentEndStream else stream
        | .stream buffer ended detached =>
            if detached || (buffer.isEmpty && !ended) then session
            else
              let (sent, written) := session.writeDataWindowed id buffer ended cap 0
              written.modify id fun stream =>
                let left := buffer.drop sent
                if left.isEmpty && ended then
                  { stream with body := .stream [] ended true }.sentEndStream
                else { stream with body := .stream left ended detached }

/-- One turn of every stream with at most `slice` bytes each, and whether one moved. -/
def drainPass (session : Session σ) (slice : ℕ) (ids : List ℕ) : Bool × Session σ :=
  ids.foldl (fun (progressed, session) id =>
    match session.find id with
    | none => (progressed, session)
    | some stream =>
        if stream.localClosed || stream.sendWindow ≤ 0 then (progressed, session)
        else
          let drained := session.drainSendBody id slice
          let closed := (drained.find id).any (·.localClosed)
          (progressed || drained.connSendWindow != session.connSendWindow || closed, drained))
    (false, session)

/-- Whether it stopped at the high-water mark with bytes still sendable.  Each pass that
moves something spends a window or closes a stream, so as many passes are enough. -/
def drainSendBodiesLoop : ℕ → Session σ → Bool × Session σ
  | 0, session => (false, session)
  | passes + 1, session =>
      if session.connSendWindow ≤ 0 then (false, session)
      else if session.queued ≥ writeBufferHighWater then (true, session)
      else
        match session.drainPass session.remoteMaxFrameSize (session.streams.map (·.id)) with
        | (false, drained) => (false, drained)
        | (true, drained) => drainSendBodiesLoop passes drained

def drainSendBodies (session : Session σ) : Bool × Session σ :=
  drainSendBodiesLoop (session.connSendWindow.toNat + session.streams.length + 1) session

end Session

end Bun.Http2
