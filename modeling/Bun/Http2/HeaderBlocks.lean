/-
The header blocks that reach the HPACK decoder.

The decoder has state that every block changes, so it has to see each block the peer sends
once, completely and in order, whatever has become of its stream.  A block that is not
complete is kept by its stream, or by the session when the stream is gone.
-/

import Bun.Http2.SendWindows

set_option autoImplicit false

namespace Bun.Http2

open Bun.Foundation Session

variable {σ : Type} {hpack : Hpack σ} {label : Label} {session after : Session σ}

/-! ### What the peer sent -/

/-- The header blocks of a log: those that are complete, and one that is not. -/
structure Blocks where
  complete : List (List UInt8) := []
  unfinished : Option (ℕ × List UInt8) := none
deriving DecidableEq, Repr

def Blocks.add (blocks : Blocks) (id : ℕ) (block : List UInt8) (ends : Bool) : Blocks :=
  if ends then { complete := blocks.complete ++ [block], unfinished := none }
  else { blocks with unfinished := some (id, block) }

/-- A HEADERS frame starts a block without padding and priority, a CONTINUATION frame
continues it. -/
def Blocks.take (blocks : Blocks) : Event → Blocks
  | .received frame =>
      match frame.kind, frame.fragment, blocks.unfinished with
      | .headers, some fragment, _ => blocks.add frame.streamId fragment frame.endHeaders
      | .continuation, _, some (id, block) =>
          blocks.add id (block ++ frame.payload) frame.endHeaders
      | _, _, _ => blocks
  | _ => blocks

def sentBlocks (log : List Event) : Blocks :=
  log.foldl Blocks.take {}

def feedAll (hpack : Hpack σ) (table : σ) (blocks : List (List UInt8)) : Option σ :=
  blocks.foldlM (feedBlock hpack) table

theorem feedAll_concat {table middle : σ} {blocks : List (List UInt8)} {block : List UInt8}
    (fed : feedAll hpack table blocks = some middle) :
    feedAll hpack table (blocks ++ [block]) = feedBlock hpack middle block := by
  unfold feedAll at fed ⊢
  rw [List.foldlM_append, fed]
  simp

theorem sentBlocks_concat (log : List Event) (event : Event) :
    sentBlocks (log ++ [event]) = (sentBlocks log).take event := by
  unfold sentBlocks
  rw [List.foldl_append]
  rfl

def Event.Blockless : Event → Prop
  | .received frame => frame.kind ≠ .headers ∧ frame.kind ≠ .continuation
  | _ => True

theorem Blocks.take_blockless (blocks : Blocks) {event : Event} (blockless : event.Blockless) :
    blocks.take event = blocks := by
  cases event with
  | preface frames => rfl
  | wrote frame => rfl
  | granted id increment => rfl
  | received frame =>
      unfold Blocks.take
      dsimp only
      split
      · rename_i isHeaders _
        exact absurd isHeaders blockless.1
      · rename_i isContinuation _
        exact absurd isContinuation blockless.2
      · rfl

theorem sentBlocks_append {log events : List Event}
    (blockless : ∀ event ∈ events, event.Blockless) :
    sentBlocks (log ++ events) = sentBlocks log := by
  unfold sentBlocks
  rw [List.foldl_append]
  generalize log.foldl Blocks.take {} = blocks
  induction events with
  | nil => rfl
  | cons event rest ih =>
      rw [List.foldl_cons, blocks.take_blockless (blockless event List.mem_cons_self)]
      exact ih fun other isIn => blockless other (List.mem_cons_of_mem _ isIn)

/-! ### What the session keeps -/

def blocksOf (session : Session σ) : List (ℕ × List UInt8) :=
  session.streams.map fun stream => (stream.id, stream.headerBlock)

/-- The block of a stream, or that of a stream which is gone. -/
def held (session : Session σ) (id : ℕ) : List UInt8 :=
  ((session.find id).map (·.headerBlock)).getD session.orphanHeaderBlock

theorem find_headerBlock (session : Session σ) (id : ℕ) :
    (session.find id).map (·.headerBlock) = (blocksOf session).lookup id := by
  unfold find blocksOf
  induction session.streams with
  | nil => rfl
  | cons stream rest ih =>
      rw [List.find?_cons, List.map_cons, List.lookup_cons]
      by_cases isId : stream.id = id
      · simp [isId]
      · have notId : (id == stream.id) = false := by simpa using Ne.symm isId
        have notId' : (stream.id == id) = false := by simpa using isId
        rw [notId, notId']
        exact ih

theorem held_eq {id : ℕ} (blocks : blocksOf after = blocksOf session)
    (orphan : after.orphanHeaderBlock = session.orphanHeaderBlock) : held after id = held session id := by
  unfold held
  rw [find_headerBlock, find_headerBlock, blocks, orphan]

/-- The decoder has seen every complete block, and the rest is kept. -/
structure Synced (hpack : Hpack σ) (table : σ) (session : Session σ) : Prop where
  ids : Ids session
  fed : feedAll hpack table (sentBlocks session.log).complete = some session.hpack
  idle : (sentBlocks session.log).unfinished = none → session.expectingContinuation = 0
  kept : ∀ id block, (sentBlocks session.log).unfinished = some (id, block) →
    session.expectingContinuation = id ∧ 0 < id ∧ id < session.nextStreamId ∧
      held session id = block

namespace Synced

variable {table : σ}

theorem keep (synced : Synced hpack table session) (ids : Ids after) {events : List Event}
    (log : after.log = session.log ++ events) (blockless : ∀ event ∈ events, event.Blockless)
    (hpackSame : after.hpack = session.hpack)
    (expecting : after.expectingContinuation = session.expectingContinuation)
    (next : session.nextStreamId ≤ after.nextStreamId)
    (same : ∀ id, session.expectingContinuation = id → 0 < id → id < session.nextStreamId →
      held after id = held session id) : Synced hpack table after := by
  have blocks : sentBlocks after.log = sentBlocks session.log := by
    rw [log]
    exact sentBlocks_append blockless
  refine ⟨ids, ?_, ?_, ?_⟩
  · rw [blocks, hpackSame]
    exact synced.fed
  · rw [blocks, expecting]
    exact synced.idle
  · rw [blocks, expecting]
    intro id block unfinished
    obtain ⟨isExpected, positive, below, isHeld⟩ := synced.kept id block unfinished
    exact ⟨isExpected, positive, below.trans_le next,
      (same id isExpected positive below).trans isHeld⟩

theorem keepSilent (synced : Synced hpack table session) (ids : Ids after)
    (log : after.log = session.log) (hpackSame : after.hpack = session.hpack)
    (expecting : after.expectingContinuation = session.expectingContinuation)
    (orphan : after.orphanHeaderBlock = session.orphanHeaderBlock)
    (next : after.nextStreamId = session.nextStreamId)
    (blocks : blocksOf after = blocksOf session) : Synced hpack table after :=
  synced.keep ids (log.trans (List.append_nil _).symm) (fun _ isIn => absurd isIn List.not_mem_nil)
    hpackSame expecting next.ge fun _ _ _ _ => held_eq blocks orphan

theorem keepOne (synced : Synced hpack table session) (ids : Ids after) {event : Event}
    (blockless : event.Blockless) (log : after.log = session.log ++ [event])
    (hpackSame : after.hpack = session.hpack)
    (expecting : after.expectingContinuation = session.expectingContinuation)
    (orphan : after.orphanHeaderBlock = session.orphanHeaderBlock)
    (next : after.nextStreamId = session.nextStreamId)
    (blocks : blocksOf after = blocksOf session) : Synced hpack table after := by
  refine synced.keep ids log (fun other isIn => ?_) hpackSame expecting next.ge fun _ _ _ _ =>
    held_eq blocks orphan
  rw [List.mem_singleton.mp isIn]
  exact blockless

theorem unfinished_of_expected (synced : Synced hpack table session) {id : ℕ}
    (expected : session.expectingContinuation = id) (notZero : id ≠ 0) :
    (sentBlocks session.log).unfinished = some (id, held session id) ∧ id < session.nextStreamId := by
  cases isUnfinished : (sentBlocks session.log).unfinished with
  | none => exact absurd (expected.symm.trans (synced.idle isUnfinished)) notZero
  | some kept =>
      obtain ⟨other, block⟩ := kept
      obtain ⟨isOther, _, below, isHeld⟩ := synced.kept other block isUnfinished
      have same : other = id := isOther.symm.trans expected
      subst same
      rw [isHeld]
      exact ⟨rfl, below⟩

theorem startBlock (synced : Synced hpack table session) (ids : Ids after) {frame : Frame}
    {fragment : List UInt8} (kind : frame.kind = .headers)
    (isFragment : frame.fragment = some fragment) (incomplete : frame.endHeaders = false)
    (log : after.log = session.log ++ [.received frame]) (hpackSame : after.hpack = session.hpack)
    (expecting : after.expectingContinuation = frame.streamId)
    (range : 0 < frame.streamId ∧ frame.streamId < after.nextStreamId)
    (isHeld : held after frame.streamId = fragment) : Synced hpack table after := by
  have blocks : sentBlocks after.log =
      { sentBlocks session.log with unfinished := some (frame.streamId, fragment) } := by
    rw [log, sentBlocks_concat]
    simp [Blocks.take, Blocks.add, kind, isFragment, incomplete]
  refine ⟨ids, ?_, ?_, ?_⟩
  · rw [blocks, hpackSame]
    exact synced.fed
  · rw [blocks]
    intro impossible
    cases impossible
  · rw [blocks]
    intro id block isUnfinished
    cases isUnfinished
    exact ⟨expecting, range.1, range.2, isHeld⟩

theorem continueBlock (synced : Synced hpack table session) (ids : Ids after) {frame : Frame}
    (kind : frame.kind = .continuation) (incomplete : frame.endHeaders = false)
    (expected : session.expectingContinuation = frame.streamId) (notZero : frame.streamId ≠ 0)
    (log : after.log = session.log ++ [.received frame]) (hpackSame : after.hpack = session.hpack)
    (expecting : after.expectingContinuation = session.expectingContinuation)
    (next : after.nextStreamId = session.nextStreamId)
    (isHeld : held after frame.streamId = held session frame.streamId ++ frame.payload) :
    Synced hpack table after := by
  obtain ⟨isUnfinished, below⟩ := synced.unfinished_of_expected expected notZero
  have blocks : sentBlocks after.log = { sentBlocks session.log with
      unfinished := some (frame.streamId, held session frame.streamId ++ frame.payload) } := by
    rw [log, sentBlocks_concat]
    simp [Blocks.take, Blocks.add, kind, isUnfinished, incomplete]
  refine ⟨ids, ?_, ?_, ?_⟩
  · rw [blocks, hpackSame]
    exact synced.fed
  · rw [blocks]
    intro impossible
    cases impossible
  · rw [blocks]
    intro id block isUnfinished
    cases isUnfinished
    exact ⟨expecting.trans expected, Nat.pos_of_ne_zero notZero, next ▸ below, isHeld⟩

theorem endBlock (synced : Synced hpack table session) (ids : Ids after) {frame : Frame}
    {block : List UInt8} (blocks : sentBlocks (session.log ++ [.received frame]) =
      { complete := (sentBlocks session.log).complete ++ [block], unfinished := none })
    (log : after.log = session.log ++ [.received frame])
    (fed : feedBlock hpack session.hpack block = some after.hpack)
    (nobody : after.expectingContinuation = 0) : Synced hpack table after := by
  refine ⟨ids, ?_, fun _ => nobody, ?_⟩
  · rw [log, blocks]
    exact (feedAll_concat synced.fed).trans fed
  · rw [log, blocks]
    intro id block impossible
    cases impossible

theorem readHeaders (synced : Synced hpack table session) (ids : Ids after) {frame : Frame}
    {fragment : List UInt8} (kind : frame.kind = .headers)
    (isFragment : frame.fragment = some fragment) (complete : frame.endHeaders = true)
    (log : after.log = session.log ++ [.received frame])
    (fed : feedBlock hpack session.hpack fragment = some after.hpack)
    (nobody : after.expectingContinuation = 0) : Synced hpack table after := by
  refine synced.endBlock ids ?_ log fed nobody
  rw [sentBlocks_concat]
  simp [Blocks.take, Blocks.add, kind, isFragment, complete]

theorem readMore (synced : Synced hpack table session) (ids : Ids after) {frame : Frame}
    (kind : frame.kind = .continuation)
    (expected : session.expectingContinuation = frame.streamId) (notZero : frame.streamId ≠ 0)
    (complete : frame.endHeaders = true) (log : after.log = session.log ++ [.received frame])
    (fed : feedBlock hpack session.hpack (held session frame.streamId ++ frame.payload) =
      some after.hpack)
    (nobody : after.expectingContinuation = 0) : Synced hpack table after := by
  obtain ⟨isUnfinished, _⟩ := synced.unfinished_of_expected expected notZero
  refine synced.endBlock ids ?_ log fed nobody
  rw [sentBlocks_concat]
  simp [Blocks.take, Blocks.add, kind, isUnfinished, complete]

end Synced

/-! ### One action -/

theorem mapStreams_blocks (session : Session σ) {change : Stream → Stream}
    (keeps : ∀ stream, (change stream).id = stream.id ∧
      (change stream).headerBlock = stream.headerBlock) :
    blocksOf (session.mapStreams change) = blocksOf session := by
  unfold blocksOf mapStreams
  rw [List.map_map]
  refine List.map_congr_left fun stream _ => ?_
  rw [Function.comp_apply, (keeps stream).1, (keeps stream).2]

theorem modify_blocks (session : Session σ) (id : ℕ) {change : Stream → Stream}
    (keeps : ∀ stream, (change stream).id = stream.id ∧
      (change stream).headerBlock = stream.headerBlock) :
    blocksOf (session.modify id change) = blocksOf session := by
  rw [modify_eq_mapStreams, mapStreams_blocks]
  intro stream
  split
  · exact keeps stream
  · exact ⟨rfl, rfl⟩

theorem shiftWindows_blocks (delta : ℤ) (streams : List Stream) :
    (shiftWindows delta streams).1.map (fun stream => (stream.id, stream.headerBlock)) =
      streams.map fun stream => (stream.id, stream.headerBlock) := by
  induction streams with
  | nil => rfl
  | cons stream rest ih =>
      unfold shiftWindows
      dsimp only
      split
      · rfl
      · split
        · rfl
        · rw [List.map_cons, List.map_cons, ih]

structure SameBlocks (session after : Session σ) : Prop where
  hpack_eq : after.hpack = session.hpack
  expecting_eq : after.expectingContinuation = session.expectingContinuation
  orphan_eq : after.orphanHeaderBlock = session.orphanHeaderBlock
  blocks_eq : blocksOf after = blocksOf session

theorem applySetting_blocks (session : Session σ) (setting : ℕ × ℕ) :
    SameBlocks session (session.applySetting setting) := by
  unfold applySetting
  dsimp only
  split
  · split
    · exact ⟨rfl, rfl, rfl, rfl⟩
    · exact ⟨rfl, rfl, rfl, rfl⟩
  · split
    · exact ⟨rfl, rfl, rfl, rfl⟩
    · split
      · exact ⟨rfl, rfl, rfl, rfl⟩
      · split
        · split
          · exact ⟨rfl, rfl, rfl, rfl⟩
          · exact ⟨rfl, rfl, rfl, shiftWindows_blocks _ session.streams⟩
        · exact ⟨rfl, rfl, rfl, rfl⟩

theorem applySettings_blocks (session : Session σ) (units : List (ℕ × ℕ)) :
    SameBlocks session (session.applySettings units) := by
  induction units generalizing session with
  | nil => exact ⟨rfl, rfl, rfl, rfl⟩
  | cons setting rest ih =>
      have first := applySetting_blocks session setting
      unfold applySettings
      dsimp only
      split
      · exact first
      · have later := ih (session.applySetting setting)
        exact ⟨later.hpack_eq.trans first.hpack_eq, later.expecting_eq.trans first.expecting_eq,
          later.orphan_eq.trans first.orphan_eq, later.blocks_eq.trans first.blocks_eq⟩

theorem held_removeStream (ids : Ids session) (id : ℕ) {expected : ℕ}
    (isExpected : session.expectingContinuation = expected) :
    held (session.removeStream id) expected = held session expected := by
  have isFind := ids.find_removeStream id expected
  unfold held
  rw [isFind]
  by_cases isId : expected = id
  · subst isId
    rw [if_pos rfl]
    unfold removeStream
    cases found : session.find expected with
    | none => rfl
    | some stream => exact if_pos isExpected
  · rw [if_neg isId]
    unfold removeStream
    cases found : session.find id with
    | none => rfl
    | some stream =>
        have other : session.expectingContinuation ≠ id := isExpected.symm ▸ isId
        dsimp only
        rw [if_neg other]

theorem held_addStream (session : Session σ) {stream : Stream} {id : ℕ} (other : id ≠ stream.id) :
    held (session.addStream stream) id = held session id := by
  have same : (session.addStream stream).find id = session.find id := by
    unfold find addStream
    dsimp only
    rw [List.find?_append, List.find?_cons_of_neg (by simpa using other.symm), List.find?_nil,
      Option.or_none]
  unfold held
  rw [same]
  rfl

theorem held_mapStreams (session : Session σ) {change : Stream → Stream} {id : ℕ}
    (keepsId : ∀ stream, (change stream).id = stream.id)
    (block : ∀ stream, stream.id = id → (change stream).headerBlock = stream.headerBlock) :
    held (session.mapStreams change) id = held session id := by
  unfold held
  rw [find_mapStreams session id keepsId]
  cases found : session.find id with
  | none => rfl
  | some stream => exact block stream (id_of_find found)

theorem rstStream_synced {table : σ} (synced : Synced hpack table session) (id : ℕ)
    (code : ErrorCode) (ids : Ids (session.rstStream id code)) :
    Synced hpack table (session.rstStream id code) := by
  obtain ⟨same, _⟩ | ⟨stream, _, _, _, isReset⟩ := rstStream_cases session id code
  · rw [same]
    exact synced
  · rw [isReset] at ids ⊢
    have blockless : (Event.wrote (rstFrame id code)).Blockless := trivial
    exact synced.keepOne ids blockless rfl rfl rfl rfl rfl (modify_blocks session id fun _ => ⟨rfl, rfl⟩)

theorem closeWith_blocks (session : Session σ) (id : ℕ) (ends : Bool) :
    blocksOf (session.modify id fun stream => if ends then stream.sentEndStream else stream) =
      blocksOf session := by
  refine modify_blocks session id fun stream => ?_
  split
  · exact ⟨rfl, rfl⟩
  · exact ⟨rfl, rfl⟩

theorem writeData_blocks (session : Session σ) (id : ℕ) (last : Bool) (chunk : List UInt8) :
    SameBlocks session (session.writeData id last chunk) := by
  unfold writeData
  dsimp only
  split
  · exact ⟨rfl, rfl, rfl, rfl⟩
  · exact ⟨rfl, rfl, rfl, modify_blocks session id fun _ => ⟨rfl, rfl⟩⟩

theorem addStream_synced {table : σ} (synced : Synced hpack table session) {stream : Stream}
    (fresh : stream.Fresh session) : Synced hpack table (session.addStream stream) := by
  refine synced.keep (synced.ids.addStream fresh) (List.append_nil _).symm
    (fun _ isIn => by cases isIn) rfl rfl (Nat.le_add_right _ 2) fun id _ _ below => ?_
  exact held_addStream session (fresh.id_eq ▸ Nat.ne_of_lt below)

theorem removeStream_core (session : Session σ) (id : ℕ) :
    (session.removeStream id).log = session.log ∧
      (session.removeStream id).hpack = session.hpack ∧
      (session.removeStream id).expectingContinuation = session.expectingContinuation ∧
      (session.removeStream id).nextStreamId = session.nextStreamId := by
  unfold removeStream
  split
  · exact ⟨rfl, rfl, rfl, rfl⟩
  · exact ⟨rfl, rfl, rfl, rfl⟩

theorem Act.synced {table : σ} (act : Act hpack label session after)
    (alive : after.fatalError = none) (synced : Synced hpack table session) :
    Synced hpack table after := by
  have ids : Ids after := act.ids alive synced.ids
  cases act with
  | tune _ _ core =>
      refine synced.keepSilent ids core.log_eq core.hpack_eq core.expecting_eq core.orphan_eq
        core.next_eq ?_
      unfold blocksOf
      rw [core.streams_eq]
  | quiet _ change quiet block =>
      refine synced.keep ids (List.append_nil _).symm (fun _ isIn => by cases isIn) rfl rfl
        (Nat.le_refl _) fun id expected positive _ => ?_
      refine held_mapStreams session (fun stream => (quiet stream).id_eq) fun stream isId => ?_
      rcases block stream with same | other | nobody
      · exact same
      · exact absurd (expected.trans isId.symm) other
      · omega
  | orphan _ block nobody =>
      refine synced.keep ids (List.append_nil _).symm (fun _ isIn => by cases isIn) rfl rfl
        (Nat.le_refl _) fun id expected positive _ => ?_
      omega
  | fail _ error => cases alive
  | dead _ _ _ failedAfter =>
      rw [alive] at failedAfter
      cases failedAfter
  | panic _ value increment => exact synced.keepSilent ids rfl rfl rfl rfl rfl rfl
  | reject _ frame error => cases alive
  | inert _ frame kind =>
      have blockless : (Event.received frame).Blockless := ⟨kind.2.1, kind.2.2.1⟩
      exact synced.keepOne ids blockless rfl rfl rfl rfl rfl rfl
  | settings _ frame _ kind notAck =>
      have blockless : (Event.received frame).Blockless := by simp [Event.Blockless, kind]
      obtain ⟨log, next⟩ := applySettings_log (session.record (.received frame))
        (settingsUnits frame.payload)
      have same := applySettings_blocks (session.record (.received frame))
        (settingsUnits frame.payload)
      exact synced.keepOne ids blockless log same.hpack_eq same.expecting_eq same.orphan_eq next
        same.blocks_eq
  | grantConn _ increment =>
      have blockless : (Event.granted 0 increment).Blockless := trivial
      exact synced.keepOne ids blockless rfl rfl rfl rfl rfl rfl
  | grantStream _ stream increment =>
      have blockless : (Event.granted stream.id increment).Blockless := trivial
      exact synced.keepOne ids blockless rfl rfl rfl rfl rfl
        (modify_blocks session stream.id fun _ => ⟨rfl, rfl⟩)
  | reset _ id code => exact rstStream_synced synced id code ids
  | recvEnd _ id change each =>
      refine synced.keepSilent ids rfl rfl rfl rfl rfl (modify_blocks session id fun stream => ?_)
      rcases each stream with same | ended
      · rw [same]
        exact ⟨rfl, rfl⟩
      · rw [ended]
        exact ⟨rfl, rfl⟩
  | keepHeaders _ frame fragment stream change kind isFragment incomplete nobody found quiet block =>
      refine synced.startBlock ids kind isFragment incomplete rfl rfl rfl
        (synced.ids.of_find found) ?_
      have changed := find_modify change (fun stream => (quiet stream).id_eq) found
      unfold held
      change ((session.modify frame.streamId change).find frame.streamId |>.map _).getD _ = _
      rw [changed]
      exact block stream
  | keepOrphan _ frame fragment kind isFragment incomplete nobody untracked notZero used =>
      refine synced.startBlock ids kind isFragment incomplete rfl rfl rfl
        ⟨Nat.pos_of_ne_zero notZero, used⟩ ?_
      unfold held
      change (session.find frame.streamId |>.map _).getD _ = _
      rw [untracked]
      rfl
  | readHeaders _ frame fragment table kind isFragment complete nobody fed =>
      exact synced.readHeaders ids kind isFragment complete rfl fed nobody
  | keepMore _ frame kind expected notZero incomplete stream found =>
      refine synced.continueBlock ids kind incomplete expected notZero rfl rfl rfl rfl ?_
      have changed := find_modify (keepMoreFragment frame.payload) (fun _ => rfl) found
      unfold held
      change ((session.modify frame.streamId (keepMoreFragment frame.payload)).find
        frame.streamId |>.map _).getD _ = _
      rw [changed, found]
      rfl
  | keepMoreOrphan _ frame kind expected notZero incomplete untracked =>
      refine synced.continueBlock ids kind incomplete expected notZero rfl rfl rfl rfl ?_
      unfold held
      change (session.find frame.streamId |>.map _).getD _ = _
      rw [untracked]
      rfl
  | readMore _ frame table kind expected notZero complete fed =>
      exact synced.readMore ids kind expected notZero complete rfl fed rfl
  | dataUncounted _ frame kind =>
      have blockless : (Event.received frame).Blockless := by simp [Event.Blockless, kind]
      exact synced.keepOne ids blockless rfl rfl rfl rfl rfl rfl
  | dataEarly _ frame _ kind stream found =>
      have blockless : (Event.received frame).Blockless := by simp [Event.Blockless, kind]
      have countedIds : Ids (session.countConn frame) :=
        synced.ids.keepOne rfl rfl rfl (synced.ids.receivedOn (synced.ids.of_find found).2)
      have counted : Synced hpack table (session.countConn frame) :=
        synced.keepOne countedIds blockless rfl rfl rfl rfl rfl rfl
      exact rstStream_synced counted stream.id .protocolError ids
  | dataCounted _ frame kind stream found =>
      have blockless : (Event.received frame).Blockless := by simp [Event.Blockless, kind]
      exact synced.keepOne ids blockless rfl rfl rfl rfl rfl
        (modify_blocks session stream.id fun _ => ⟨rfl, rfl⟩)
  | resetIgnored _ frame kind used =>
      have blockless : (Event.received frame).Blockless := by simp [Event.Blockless, kind]
      exact synced.keepOne ids blockless rfl rfl rfl rfl rfl rfl
  | resetReceived _ frame kind stream found =>
      have blockless : (Event.received frame).Blockless := by simp [Event.Blockless, kind]
      exact synced.keepOne ids blockless rfl rfl rfl rfl rfl
        (modify_blocks session stream.id fun _ => ⟨rfl, rfl⟩)
  | endWithheld _ stream _ found =>
      have blockless : (Event.wrote (endDataFrame stream.id)).Blockless := trivial
      exact synced.keepOne ids blockless rfl rfl rfl rfl rfl
        (modify_blocks session stream.id fun _ => ⟨rfl, rfl⟩)
  | control _ frame kind onConn =>
      have blockless : (Event.wrote frame).Blockless := trivial
      exact synced.keepOne ids blockless rfl rfl rfl rfl rfl rfl
  | preface _ =>
      have blockless (frames : List Frame) : (Event.preface frames).Blockless := trivial
      exact synced.keepOne ids (blockless _) rfl rfl rfl rfl rfl rfl
  | sendData _ stream last chunk _ found opened fits =>
      have blockless : (Event.wrote (dataFrame stream.id last chunk)).Blockless := trivial
      obtain ⟨log, next⟩ := writeData_log session stream.id last chunk
      have same := writeData_blocks session stream.id last chunk
      exact synced.keepOne ids blockless log same.hpack_eq same.expecting_eq same.orphan_eq next
        ((closeWith_blocks _ stream.id last).trans same.blocks_eq)
  | ackConn _ _ =>
      have blockless (frame : Frame) : (Event.wrote frame).Blockless := trivial
      exact synced.keepOne ids (blockless _) rfl rfl rfl rfl rfl rfl
  | ackStream _ stream _ found =>
      have blockless (frame : Frame) : (Event.wrote frame).Blockless := trivial
      exact synced.keepOne ids (blockless _) rfl rfl rfl rfl rfl
        (modify_blocks session stream.id fun _ => ⟨rfl, rfl⟩)
  | openStream _ stream fresh => exact addStream_synced synced fresh
  | openRequest _ stream _ fresh size block ends =>
      obtain ⟨queued, wrote⟩ := foldl_writeFrame (session.addStream stream)
        (headerFrames size stream.id ends true block)
      rw [wrote] at ids ⊢
      refine (addStream_synced synced fresh).keep ids rfl (fun event isIn => ?_) rfl rfl (Nat.le_refl _)
        fun id _ _ _ => held_eq (closeWith_blocks _ stream.id ends) rfl
      obtain ⟨frame, _, rfl⟩ := List.mem_map.mp isIn
      trivial
  | remove _ id =>
      obtain ⟨log, hpackSame, expecting, next⟩ := removeStream_core session id
      exact synced.keep ids (log.trans (List.append_nil _).symm) (fun _ isIn => by cases isIn)
        hpackSame expecting next.ge fun _ expected _ _ => held_removeStream synced.ids id expected

/-! ### Every run -/

theorem Synced.fresh (table : σ) : Synced hpack table (Session.fresh table) where
  ids := Ids.fresh table
  fed := rfl
  idle := fun _ => rfl
  kept := fun _ _ impossible => by cases impossible

/-- In every run, as long as the session has not failed, its decoder is the one that was fed
the blocks of the peer, each of them completely and in order.  The decoder is arbitrary, so
it may be one that keeps what it was given. -/
theorem reachable_headerBlocks (hpack : Hpack σ) (table : σ) {session : Session σ}
    (reachable : Reachable hpack anyFrame table session) (alive : session.fatalError = none) :
    feedAll hpack table (sentBlocks session.log).complete = some session.hpack := by
  have synced : Synced hpack table session := by
    refine reachable.path.invariant (fun _ => Synced.fresh table) ?_ alive
    intro label session after _ act alive synced
    exact act.synced alive synced
  exact synced.fed

/-- A decoder that takes a field from each byte and keeps what it was given. -/
def recorder : Hpack (List UInt8) where
  decode := fun table input =>
    match input with
    | [] => none
    | byte :: _ => some ({ name := [byte], value := [], next := 1 }, table ++ [byte])
  next_pos := by
    intro table input field table' isField
    cases input with
    | nil => cases isField
    | cons byte rest =>
        cases isField
        exact Nat.one_pos

def interrupted : Session (List UInt8) :=
  (((((Session.fresh []).dispatchFrame recorder (settingsFrame settingsInitialWindowSize 2)).attach
    { block := some [0x82] } []).dispatchFrame recorder
      { kind := .headers, streamId := 1, payload := [0x61] }).removeStream 1).dispatchFrame recorder
        { kind := .continuation, flags := endHeadersFlag, streamId := 1, payload := [0x62] }

theorem interrupted_reachable : Reachable recorder anyFrame [] interrupted :=
  (((((Run.refl _).step (Step.frame _ _ rfl trivial)).step
    (Step.attach _ _ (by decide +kernel))).step (Step.frame _ _ (by decide +kernel) trivial)).step
      (Step.remove _ 1 (by decide +kernel))).step (Step.frame _ _ (by decide +kernel) trivial)

theorem reachable_headerBlocks_interrupted :
    (sentBlocks interrupted.log).complete = [[0x61, 0x62]] ∧
      feedAll recorder [] [[0x61, 0x62]] = some interrupted.hpack ∧
      interrupted.hpack = [0x61, 0x62] := by
  have blocks : (sentBlocks interrupted.log).complete = [[0x61, 0x62]] := by decide +kernel
  have fed := reachable_headerBlocks recorder [] interrupted_reachable (by decide +kernel)
  rw [blocks] at fed
  exact ⟨blocks, fed, by decide +kernel⟩

end Bun.Http2
